import BitcoinSpend.Proofs.Script.Machine.Step

/-!
# Conditionals as blocks

A list of tokens whose conditionals are well nested is a tree of blocks, and `Nested.run` interprets
the tree: a block pops one condition, its segments are executed in turn or only scanned, and there
is no list of open conditionals. The main result is `execute_tokens`, which says that the machine
does the same with the flat list of tokens. Read `Nested` and `Nested.run` first.
-/

namespace BitcoinSpend.Script

/-! ## Blocks -/

mutual

/-- A list of tokens whose conditionals are well nested. -/
inductive Nested where
  | done
  /-- A token that is no conditional keyword. -/
  | plain (t : Token) (ht : t.isBranch = false) (next : Nested)
  /-- A block, which wants its condition to be true or false. -/
  | block (wanted : Bool) (segments : Segments) (next : Nested)

/-- The segments of a block, with the keywords between and behind them. -/
inductive Segments where
  | last (body : Nested)
  | orElse (body : Nested) (others : Segments)

end

/-- The keyword in front of a block. -/
def opening (wanted : Bool) : Token :=
  .op (.branch (if wanted then .whenTrue else .whenFalse))

/-- The keyword between two segments of a block. -/
def elseToken : Token :=
  .op (.branch .otherwise)

/-- The keyword behind a block. -/
def endToken : Token :=
  .op (.branch .close)

mutual

/-- The flat list of tokens. -/
def Nested.tokens : Nested → List Token
  | .done => []
  | .plain t _ next => t :: next.tokens
  | .block wanted segments next => opening wanted :: (segments.tokens ++ next.tokens)

/-- The flat list of tokens from the first segment of a block to its end. -/
def Segments.tokens : Segments → List Token
  | .last body => body.tokens ++ [endToken]
  | .orElse body others => body.tokens ++ elseToken :: others.tokens

end

namespace Machine

/-! ## The structured interpreter -/

/-- Whether a condition selects the segment at a position: one that is true selects the segments at
even positions, one that is false those at odd ones. -/
def selects (condition : Bool) (position : Nat) : Bool :=
  (position % 2 == 0) == condition

/-- A condition selects every other segment. -/
theorem selects_succ (condition : Bool) (position : Nat) :
    selects condition (position + 1) = !selects condition position := by
  have hparity : ((position + 1) % 2 == 0) = !(position % 2 == 0) := by
    rw [Bool.eq_iff_iff]
    simp
    omega
  rw [selects, selects, hparity]
  cases position % 2 == 0 <;> cases condition <;> rfl

end Machine

open Machine

mutual

/-- Interprets a list of tokens as a tree of blocks. It is told whether the tokens are executed or
only scanned, whether the first one has been used up as the data of a push, how many tokens of the
unlocking script are left, and which tokens stand behind the list. -/
def Nested.run (env : Environment) :
    Nested → (taken : Bool) → (tookFirst : TookNext) → (left : Nat) → (behind : List Token) →
    StepM Unit
  | .done, _, _, _, _ => return ()
  | .plain t _ next, taken, tookFirst, left, behind =>
    if tookFirst then next.run env taken false (left - 1) behind
    else if taken then do
      let tookNext ← step env left (next.tokens ++ behind) t
      next.run env taken tookNext (left - 1) behind
    else do
      scan t
      next.run env taken false (left - 1) behind
  | .block wanted segments next, taken, _, left, behind => do
    let selector ← condition taken wanted
    segments.run env taken selector 0 (left - 1) (next.tokens ++ behind)
    next.run env taken false (left - 1 - segments.tokens.length) behind

/-- Interprets the segments of a block from a position on. A segment is executed if the block is
reached and its condition selects the position, and only scanned if not. -/
def Segments.run (env : Environment) :
    Segments → (reached : Bool) → (selector : Bool) → (position : Nat) → (left : Nat) →
    (behind : List Token) → StepM Unit
  | .last body, reached, selector, position, left, behind =>
    body.run env (selects selector position && reached) false left (endToken :: behind)
  | .orElse body others, reached, selector, position, left, behind => do
    body.run env (selects selector position && reached) false left
      (elseToken :: (others.tokens ++ behind))
    others.run env reached selector (position + 1) (left - body.tokens.length - 1) behind

end

/-- Interprets a tree of blocks as a script, on a machine without open conditionals. Whether it is
executed depends on the conditionals that are open before it. -/
def Nested.execute (env : Environment) (p : Nested) (lockingStart : Int) : MachineM Unit := fun m ↦
  match p.run env m.executing false lockingStart.toNat []
    { m with code := suffixFrom p.tokens lockingStart, conditions := [] } with
  | .ok _ m => .ok () m
  | .error (.failed _) m => .ok () { m with valid := false }
  | .error (.raised e) m => .error e m

mutual

/-- Blocks that are not executed are scanned token by token, whatever their nesting. -/
theorem Nested.run_scanned (env : Environment) (p : Nested) (left : Nat) (behind : List Token) :
    p.run env false false left behind = forM p.tokens scan := by
  match p with
  | .done => rfl
  | .plain t _ next =>
      rw [Nested.run, if_neg Bool.false_ne_true, if_neg Bool.false_ne_true, Nested.tokens,
        next.run_scanned env, List.forM_cons]
  | .block wanted segments next =>
      have hopening : scan (opening wanted) = pure () := by cases wanted <;> rfl
      rw [Nested.run, condition, if_neg Bool.false_ne_true, pure_bind, Nested.tokens,
        segments.run_scanned env, next.run_scanned env, List.forM_cons, List.forM_append, hopening,
        pure_bind]

/-- Segments that are not executed are scanned token by token. -/
theorem Segments.run_scanned (env : Environment) (s : Segments) (selector : Bool)
    (position left : Nat) (behind : List Token) :
    s.run env false selector position left behind = forM s.tokens scan := by
  match s with
  | .last body =>
      rw [Segments.run, Segments.tokens, Bool.and_false, body.run_scanned env, List.forM_append]
      exact (bind_pure _).symm
  | .orElse body others =>
      rw [Segments.run, Segments.tokens, Bool.and_false, body.run_scanned env,
        others.run_scanned env, List.forM_append]
      rfl

end

/-- How a token halts a run where it is only scanned: unknown text is an error, and disabled and
forbidden opcodes fail the script. -/
def rejection? : Token → Option Halt
  | .unknown text => some (.raised (.unrecognized text))
  | t =>
    match t.opcode? with
    | some (.disabled d) => some (.failed (.disabled d))
    | some (.forbidden f) => some (.failed (.forbidden f))
    | _ => none

/-- Halts, or does nothing at all. -/
def haltWith (e? : Option Halt) : StepM Unit :=
  match e? with
  | some e => throw e
  | none => pure ()

/-- Scanning a token halts, or does nothing at all. -/
theorem scan_eq (t : Token) : scan t = haltWith (rejection? t) := by
  cases t with
  | op o => cases o <;> rfl
  | synonym a => cases a <;> rfl
  | literal | invalid | unknown => rfl

/-- Scanning tokens halts at the first one that is rejected, and does nothing else. -/
theorem forM_scan (tokens : List Token) :
    forM tokens scan = haltWith (tokens.findSome? rejection?) := by
  induction tokens with
  | nil => rfl
  | cons t tokens ih =>
      rw [List.forM_cons, scan_eq, ih, List.findSome?_cons]
      cases rejection? t with
      | none => rfl
      | some e => rfl

namespace Machine

/-! ## Following the interpreter -/

/-- A machine within a conditional beside the machine of the interpreter, which has none open. -/
structure Tracks (conditions : List Bool) (m n : Machine) : Prop where
  agree : Agree m n
  conditions : m.conditions = conditions
  bare : n.conditions = []

/-- The machine of the interpreter takes every branch. -/
theorem Tracks.executing {conditions : List Bool} {m n : Machine} (h : Tracks conditions m n) :
    n.executing = true := by
  rw [Machine.executing, h.bare]
  rfl

/-- The log does not matter. -/
theorem Tracks.record {conditions : List Bool} {m n : Machine} (h : Tracks conditions m n)
    (t : Token) : Tracks conditions { m with log := t :: m.log } n :=
  ⟨⟨h.agree.memory, h.agree.valid, h.agree.finalHeight, h.agree.code, h.agree.calls⟩,
    h.conditions, h.bare⟩

/-- A run follows the interpreter to the end of a list: if the interpreter gets there, the run goes
on from a machine that tracks its machine, and if it halts, the run halts for the same reason. -/
def Follows (conditions : List Bool) (goOn : StepM Unit) :
    EStateM.Result Halt Machine Unit → EStateM.Result Halt Machine Unit → Prop
  | flat, .ok _ n => ∃ m, Tracks conditions m n ∧ flat = goOn m
  | flat, .error e n => ∃ m, Agree m n ∧ flat = .error e m

/-- What follows a step that is oblivious follows the step. -/
theorem Follows.bind_step {α : Type} {conditions outer : List Bool} {goOn : StepM Unit}
    {c : StepM α} {f g : α → StepM Unit} {m n : Machine} (hc : SameOutcome m n (c m) (c n))
    (h : Tracks outer m n)
    (hnext : ∀ a m' n', c n = .ok a n' → Tracks outer m' n' →
      Follows conditions goOn (f a m') (g a n')) :
    Follows conditions goOn ((c >>= f) m) ((c >>= g) n) := by
  rw [bind_apply, bind_apply]
  cases hm : c m with
  | ok a m' =>
      cases hn : c n with
      | ok b n' =>
          rw [hm, hn] at hc
          obtain ⟨rfl, hagree, hm', hn'⟩ := hc
          exact hnext a m' n' hn ⟨hagree, hm'.trans h.conditions, hn'.trans h.bare⟩
      | error e n' =>
          rw [hm, hn] at hc
          exact hc.elim
  | error e m' =>
      cases hn : c n with
      | ok b n' =>
          rw [hm, hn] at hc
          exact hc.elim
      | error f n' =>
          rw [hm, hn] at hc
          obtain ⟨rfl, hagree, -, -⟩ := hc
          exact ⟨m', hagree, rfl⟩

/-- What follows the interpreter through one list and then through the next follows it through
both. -/
theorem Follows.bind {conditions outer : List Bool} {goOn between : StepM Unit}
    {flat : EStateM.Result Halt Machine Unit} {c : StepM Unit} {g : Unit → StepM Unit}
    {n : Machine} (h : Follows outer between flat (c n))
    (hnext : ∀ m' n', Tracks outer m' n' → Follows conditions goOn (between m') (g () n')) :
    Follows conditions goOn flat ((c >>= g) n) := by
  rw [bind_apply]
  cases hn : c n with
  | ok _ n' =>
      rw [hn] at h
      obtain ⟨m', htracks, rfl⟩ := h
      exact hnext m' n' htracks
  | error e n' =>
      rw [hn] at h
      obtain ⟨m', hagree, rfl⟩ := h
      exact ⟨m', hagree, rfl⟩

/-- What follows the interpreter to a keyword follows it past the keyword. -/
theorem Follows.past {conditions outer : List Bool} {goOn before : StepM Unit}
    {flat structured : EStateM.Result Halt Machine Unit}
    (h : Follows conditions before flat structured)
    (hpast : ∀ m n, Tracks conditions m n → ∃ m', Tracks outer m' n ∧ before m = goOn m') :
    Follows outer goOn flat structured := by
  cases structured with
  | ok _ n =>
      obtain ⟨m, htracks, rfl⟩ := h
      exact hpast m n htracks
  | error e n => exact h

/-! ### Keywords -/

variable {env : Environment} {left : Nat} {rest : List Token} {m n : Machine} {outer : List Bool}

/-- A run at the keyword in front of a block opens the block. -/
theorem run_opening (wanted : Bool) :
    run env left (opening wanted :: rest) m = (do
      let selector ← condition m.executing wanted
      modify fun m ↦ { m with conditions := selector :: m.conditions }
      run env (left - 1) rest : StepM Unit) { m with log := opening wanted :: m.log } := by
  have hstep : step env left rest (opening wanted) = (do
      openConditional wanted
      return false : StepM TookNext) := by
    cases wanted <;> rfl
  have hopen : openConditional wanted { m with log := opening wanted :: m.log } = (do
      let selector ← condition m.executing wanted
      modify fun m ↦ { m with conditions := selector :: m.conditions } : StepM Unit)
        { m with log := opening wanted :: m.log } :=
    openConditional_apply wanted _
  rw [run_cons_apply, hstep, bind_assoc, bind_apply, hopen, bind_apply, bind_apply]
  cases condition m.executing wanted { m with log := opening wanted :: m.log } with
  | ok selector m' => rfl
  | error e m' => rfl

/-- A run at the keyword between two segments turns the innermost condition over. -/
theorem run_elseToken {c : Bool} (h : Tracks (c :: outer) m n) :
    ∃ m', Tracks ((!c) :: outer) m' n ∧
      run env left (elseToken :: rest) m = run env (left - 1) rest m' := by
  rw [run_cons_apply]
  obtain ⟨⟨hmemory, hvalid, hheight, hcode, hcalls⟩, hconditions, hbare⟩ := h
  have hstep : step env left rest elseToken { m with log := elseToken :: m.log } =
      .ok false { m with log := elseToken :: m.log, conditions := (!c) :: outer } := by
    cases m
    cases hconditions
    rfl
  rw [bind_apply, hstep]
  refine ⟨{ m with log := elseToken :: m.log, conditions := (!c) :: outer }, ?_, rfl⟩
  exact ⟨⟨hmemory, hvalid, hheight, hcode, hcalls⟩, rfl, hbare⟩

/-- A run at the keyword behind a block drops its condition. -/
theorem run_endToken {c : Bool} (h : Tracks (c :: outer) m n) :
    ∃ m', Tracks outer m' n ∧
      run env left (endToken :: rest) m = run env (left - 1) rest m' := by
  rw [run_cons_apply]
  obtain ⟨⟨hmemory, hvalid, hheight, hcode, hcalls⟩, hconditions, hbare⟩ := h
  have hstep : step env left rest endToken { m with log := endToken :: m.log } =
      .ok false { m with log := endToken :: m.log, conditions := outer } := by
    cases m
    cases hconditions
    rfl
  rw [bind_apply, hstep]
  refine ⟨{ m with log := endToken :: m.log, conditions := outer }, ?_, rfl⟩
  exact ⟨⟨hmemory, hvalid, hheight, hcode, hcalls⟩, rfl, hbare⟩

/-! ### Lists of blocks -/

/-- The condition of a block selects its first segment. -/
theorem selects_zero (selector : Bool) : selects selector 0 = selector := by
  cases selector <;> rfl

mutual

/-- A run over a list of tokens follows the interpreter of its blocks. -/
theorem follows_tokens (env : Environment) (p : Nested) (tookFirst : TookNext) (left : Nat)
    (behind : List Token) {conditions : List Bool} {m n : Machine}
    (hbehind : ∀ l tail, behind ≠ .literal l :: tail)
    (hfirst : tookFirst = true → ∃ l tail, p.tokens ++ behind = .literal l :: tail)
    (h : Tracks conditions m n) :
    Follows conditions (run env (left - p.tokens.length) behind)
      (resume env tookFirst left (p.tokens ++ behind) m)
      (p.run env (conditions.all id) tookFirst left behind n) := by
  match p with
  | .done =>
      cases tookFirst with
      | true =>
          obtain ⟨l, tail, hl⟩ := hfirst rfl
          exact absurd hl (hbehind l tail)
      | false => exact ⟨m, h, rfl⟩
  | .plain t ht next =>
      -- The rest of the list is run behind the token whatever the token does.
      have hnext (took : TookNext) {m' n' : Machine}
          (htook : took = true → ∃ l tail, next.tokens ++ behind = .literal l :: tail)
          (h' : Tracks conditions m' n') :
          Follows conditions (run env (left - (t :: next.tokens).length) behind)
            (resume env took (left - 1) (next.tokens ++ behind) m')
            (next.run env (conditions.all id) took (left - 1) behind n') := by
        have ih := follows_tokens env next took (left - 1) behind hbehind htook h'
        rwa [Nat.sub_sub, Nat.add_comm] at ih
      rw [Nested.run, Nested.tokens]
      cases tookFirst with
      | true => exact hnext false (fun h ↦ nomatch h) h
      | false =>
          have hrecord := h.record t
          rw [if_neg Bool.false_ne_true, resume_false, List.cons_append, run_cons_apply]
          cases hall : conditions.all id with
          | true =>
              rw [if_pos rfl]
              have hexecuting : executing { m with log := t :: m.log } = true := by
                rw [executing, hrecord.conditions, hall]
              have hsame := step_sameOutcome env left (next.tokens ++ behind) ht hrecord.agree
                hexecuting h.executing
              refine Follows.bind_step hsame hrecord fun took m' n' hstep h' ↦ ?_
              rw [hall] at hnext
              exact hnext took (fun htook ↦ literal_of_tookNext (htook ▸ hstep)) h'
          | false =>
              -- The machine of the interpreter has nothing open, so only its flag tells it to scan.
              rw [if_neg Bool.false_ne_true]
              have hexecuting : executing { m with log := t :: m.log } = false := by
                rw [executing, hrecord.conditions, hall]
              rw [bind_apply, step_skipped env left (next.tokens ++ behind) ht hexecuting,
                ← bind_apply _ fun took ↦ resume env took (left - 1) (next.tokens ++ behind),
                bind_assoc]
              rw [hall] at hnext
              refine Follows.bind_step (Oblivious.scan t _ _ hrecord.agree) hrecord
                fun _ m' n' _ h' ↦ ?_
              exact hnext false (fun h ↦ nomatch h) h'
  | .block wanted segments next =>
      have hlength : left - (Nested.block wanted segments next).tokens.length =
          left - 1 - segments.tokens.length - next.tokens.length := by
        rw [Nested.tokens, List.length_cons, List.length_append]
        omega
      have hrecord := h.record (opening wanted)
      have hexecuting : m.executing = conditions.all id := by rw [executing, h.conditions]
      cases tookFirst with
      | true =>
          -- Only literals are used up as data, and a block begins with a keyword.
          obtain ⟨l, tail, hl⟩ := hfirst rfl
          cases hl
      | false =>
          rw [hlength, resume_false, Nested.tokens, Nested.run, List.cons_append,
            List.append_assoc, run_opening, hexecuting]
          refine Follows.bind_step (Oblivious.condition _ _ _ _ hrecord.agree) hrecord
            fun selector m' n' _ h' ↦ ?_
          have hopen : Tracks (selects selector 0 :: conditions)
              { m' with conditions := selector :: m'.conditions } n' := by
            refine ⟨⟨h'.agree.memory, h'.agree.valid, h'.agree.finalHeight, h'.agree.code,
              h'.agree.calls⟩, ?_, h'.bare⟩
            rw [selects_zero, h'.conditions]
          rw [modify_bind_apply]
          refine Follows.bind (follows_segments env segments hopen) fun m' n' h' ↦ ?_
          exact follows_tokens env next false _ behind hbehind (fun h ↦ nomatch h) h'

/-- A run over the segments of a block follows their interpreter. -/
theorem follows_segments (env : Environment) (s : Segments) {selector : Bool}
    {position left : Nat} {behind : List Token} {outer : List Bool} {m n : Machine}
    (h : Tracks (selects selector position :: outer) m n) :
    Follows outer (run env (left - s.tokens.length) behind)
      (run env left (s.tokens ++ behind) m)
      (s.run env (outer.all id) selector position left behind n) := by
  match s with
  | .last body =>
      have hbody := follows_tokens env body false left (endToken :: behind)
        (fun _ _ hl ↦ by cases hl) (fun h ↦ nomatch h) h
      have hlength : left - (Segments.last body).tokens.length = left - body.tokens.length - 1 := by
        rw [Segments.tokens, List.length_append, Nat.sub_sub]
        rfl
      rw [hlength, Segments.tokens, List.append_assoc, Segments.run]
      exact hbody.past fun _ _ ↦ run_endToken
  | .orElse body others =>
      have hbody := follows_tokens env body false left (elseToken :: (others.tokens ++ behind))
        (fun _ _ hl ↦ by cases hl) (fun h ↦ nomatch h) h
      have hlength : left - (Segments.orElse body others).tokens.length =
          left - body.tokens.length - 1 - others.tokens.length := by
        rw [Segments.tokens, List.length_append, List.length_cons]
        omega
      rw [hlength, Segments.tokens, List.append_assoc, Segments.run]
      -- The keyword turns the condition over, so that it selects the next position.
      refine Follows.bind (hbody.past fun m n htracks ↦ run_elseToken htracks) fun m' n' h' ↦ ?_
      rw [← selects_succ] at h'
      exact follows_segments env others h'

end

/-! ## Scripts -/

/-- What a run of a script shows: the error that it raised, the stacks, whether no script has
failed, and the messages asked for. -/
structure Observation where
  error? : Option MachineError
  memory : Stacks
  valid : Bool
  calls : List Call

/-- What is seen of an outcome. -/
def observe : EStateM.Result MachineError Machine Unit → Observation
  | .ok _ m => ⟨none, m.memory, m.valid, m.calls⟩
  | .error e m => ⟨some e, m.memory, m.valid, m.calls⟩

/-- Running the flat list of tokens of nested blocks shows what interpreting the blocks shows. -/
theorem observe_execute_tokens (env : Environment) (p : Nested) (lockingStart : Int) (m : Machine) :
    observe (execute env p.tokens lockingStart m) = observe (p.execute env lockingStart m) := by
  have hstart : Tracks m.conditions { m with code := suffixFrom p.tokens lockingStart }
      { m with code := suffixFrom p.tokens lockingStart, conditions := [] } :=
    ⟨⟨rfl, rfl, rfl, rfl, rfl⟩, rfl, rfl⟩
  have hfollows := follows_tokens env p false lockingStart.toNat []
    (fun _ _ h ↦ nomatch h) (fun h ↦ nomatch h) hstart
  rw [resume_false, List.append_nil] at hfollows
  rw [execute, Nested.execute, executing]
  cases hrun : p.run env (m.conditions.all id) false lockingStart.toNat []
      { m with code := suffixFrom p.tokens lockingStart, conditions := [] } with
  | ok _ n =>
      rw [hrun] at hfollows
      obtain ⟨m', htracks, hflat⟩ := hfollows
      rw [hflat, run]
      obtain ⟨hmemory, hvalid, -, -, hcalls⟩ := htracks.agree
      simp only [pure, EStateM.pure, observe, hmemory, hvalid, hcalls]
  | error e n =>
      rw [hrun] at hfollows
      obtain ⟨m', ⟨hmemory, hvalid, -, -, hcalls⟩, hflat⟩ := hfollows
      rw [hflat]
      cases e with
      | failed reason => simp only [observe, hmemory, hcalls]
      | raised e => simp only [observe, hmemory, hvalid, hcalls]

/-- Running the flat list of tokens of nested blocks shows what interpreting the blocks shows, and
the interpreter passes over the tokens that are not executed, whatever their nesting: the first one
that is rejected halts the run, and nothing else happens. -/
theorem execute_tokens (env : Environment) (p : Nested) (lockingStart : Int) (m : Machine) :
    observe (execute env p.tokens lockingStart m) = observe (p.execute env lockingStart m) ∧
      ∀ (body : Nested) (left : Nat) (behind : List Token),
        body.run env false false left behind = haltWith (body.tokens.findSome? rejection?) := by
  refine ⟨observe_execute_tokens env p lockingStart m, fun body left behind ↦ ?_⟩
  rw [body.run_scanned env, forM_scan]

end Machine

end BitcoinSpend.Script
