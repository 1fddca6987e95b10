import BitcoinSpend.Proofs.Script.Canonical
import BitcoinSpend.Proofs.Script.Machine.Boundary
import BitcoinSpend.Script.Template

/-!
# Scripts that push

A script that does nothing but push leaves what it pushes on the stack, or fails because an item is
too long or has no room. Read `Pushes` first; `run_pushes` and `run_pushes_refused` are its two
outcomes, and `pushes_of_isPushOnly` finds the pushes in a script in disassembled form. The steps
before them are stated for any machine that takes its branches.
-/

namespace BitcoinSpend.Script

/-! ## Pushes -/

/-- The unlocking scripts that consist of one push of data, directly or with a length field. -/
inductive SinglePush : List Token → Bytes → Prop where
  | direct (l : Literal) : SinglePush [.literal l] l.data
  | sized (f : LengthField) (l : Literal) : SinglePush [.op (.pushData f), .literal l] l.data

/-- The ways to write one push, with what it pushes: data, or a constant. -/
inductive Push : List Token → Bytes → Prop where
  | data {push : List Token} {item : Bytes} : SinglePush push item → Push push item
  | constant (c : Constant) : Push [.op (.stack (.constant c))] (Number.encode c.value)

/-- The scripts that do nothing but push, with the items that they push, in order. -/
inductive Pushes : List Token → List Bytes → Prop where
  | nil : Pushes [] []
  | cons {push rest : List Token} {item : Bytes} {items : List Bytes} :
      Push push item → Pushes rest items → Pushes (push ++ rest) (item :: items)

/-- A push is written. -/
theorem Push.ne_nil {push : List Token} {item : Bytes} (h : Push push item) : push ≠ [] := by
  cases h with
  | data hdata =>
      cases hdata with
      | direct | sized => exact List.cons_ne_nil _ _
  | constant c => exact List.cons_ne_nil _ _

/-- The tokens of a push pass as pushes, and none is `OP_RESERVED`. -/
theorem Push.mem {push : List Token} {item : Bytes} (h : Push push item) {t : Token}
    (ht : t ∈ push) : t.isPush = true ∧ t ≠ .op (.reserved .reserved) := by
  cases h with
  | data hdata =>
      cases hdata with
      | direct l =>
          obtain rfl := List.mem_singleton.mp ht
          exact ⟨rfl, nofun⟩
      | sized f l =>
          rcases List.mem_cons.mp ht with rfl | ht
          · cases f <;> exact ⟨rfl, nofun⟩
          · obtain rfl := List.mem_singleton.mp ht
            exact ⟨rfl, nofun⟩
  | constant c =>
      obtain rfl := List.mem_singleton.mp ht
      refine ⟨?_, nofun⟩
      cases c with
      | zero | minusOne => rfl
      | small n =>
          revert n
          decide

/-- The tokens of scripts that push pass as pushes, and none is `OP_RESERVED`. -/
theorem Pushes.mem {tokens : List Token} {items : List Bytes} (h : Pushes tokens items) {t : Token}
    (ht : t ∈ tokens) : t.isPush = true ∧ t ≠ .op (.reserved .reserved) := by
  induction h with
  | nil => exact absurd ht List.not_mem_nil
  | cons hpush _ ih => exact (List.mem_append.mp ht).elim hpush.mem ih

/-- A push ends with a literal or a constant. -/
theorem Push.exists_last {push : List Token} {item : Bytes} (h : Push push item) :
    ∃ front t, push = front ++ [t] ∧ t.isPushData = false := by
  cases h with
  | data hdata =>
      cases hdata with
      | direct l => exact ⟨[], .literal l, rfl, rfl⟩
      | sized f l => exact ⟨[.op (.pushData f)], .literal l, rfl, rfl⟩
  | constant c => exact ⟨[], _, rfl, rfl⟩

/-- Scripts that push nothing are empty. -/
theorem Pushes.items_eq_nil {tokens : List Token} {items : List Bytes} (h : Pushes tokens items)
    (hempty : tokens = []) : items = [] := by
  cases h with
  | nil => rfl
  | cons hpush _ => exact absurd (List.append_eq_nil_iff.mp hempty).1 hpush.ne_nil

/-- Scripts that push are taken apart at their last push as well. -/
theorem Pushes.exists_last {tokens : List Token} {items : List Bytes} (h : Pushes tokens items)
    (hne : tokens ≠ []) :
    ∃ before push others last, tokens = before ++ push ∧ items = others ++ [last] ∧
      Pushes before others ∧ Push push last := by
  induction h with
  | nil => exact absurd rfl hne
  | @cons push rest item items hpush hrest ih =>
      by_cases hlast : rest = []
      · subst hlast
        obtain rfl := hrest.items_eq_nil rfl
        exact ⟨[], push, [], item, List.append_nil push, rfl, .nil, hpush⟩
      · obtain ⟨before, last, others, final, rfl, rfl, hbefore, hfinal⟩ := ih hlast
        exact ⟨push ++ before, last, item :: others, final, (List.append_assoc _ _ _).symm, rfl,
          .cons hpush hbefore, hfinal⟩

/-- A push at the end of scripts that push. -/
theorem Pushes.concat {before push : List Token} {items : List Bytes} {item : Bytes}
    (h : Pushes before items) (hpush : Push push item) :
    Pushes (before ++ push) (items ++ [item]) := by
  induction h with
  | nil =>
      have hone := Pushes.cons hpush .nil
      rwa [List.append_nil] at hone
  | cons hfirst _ ih =>
      rw [List.append_assoc, List.cons_append]
      exact .cons hfirst ih

/-- A single push of data does nothing but push it. -/
theorem SinglePush.pushes {push : List Token} {item : Bytes} (h : SinglePush push item) :
    Pushes push [item] := by
  have hone := Pushes.nil.concat (.data h)
  rwa [List.nil_append] at hone

/-- A constant is written in few bytes. -/
theorem length_encode_constant (c : Constant) : (Number.encode c.value).length ≤ maxItemSize := by
  cases c with
  | zero | minusOne => decide
  | small n =>
      revert n
      decide

/-! ## Scripts that only push -/

/-- The opcodes that pass as pushes. -/
theorem op_of_isPush {o : Opcode} (h : (Token.op o).isPush = true) :
    (∃ f, o = .pushData f) ∨ (∃ c, o = .stack (.constant c)) ∨ o = .reserved .reserved := by
  have hall : ∀ o ∈ Opcode.all, (Token.op o).isPush = true →
      o ∈ [LengthField.one, .two, .four].map Opcode.pushData ∨
        o ∈ Constant.all.map (fun c ↦ Opcode.stack (.constant c)) ∨ o = .reserved .reserved := by
    decide +kernel
  rcases hall o o.mem_all h with hfield | hconstant | hreserved
  · obtain ⟨f, -, rfl⟩ := List.mem_map.mp hfield
    exact .inl ⟨f, rfl⟩
  · obtain ⟨c, -, rfl⟩ := List.mem_map.mp hconstant
    exact .inr (.inl ⟨c, rfl⟩)
  · exact .inr (.inr hreserved)

/-- A complete instruction that passes as a push is one, unless it is `OP_RESERVED`. -/
theorem push_of_isPushOnly {i : Instruction} (hi : i.Complete) (h : isPushOnly i.tokens = true) :
    (∃ item, Push i.tokens item) ∨ i.tokens = [.op (.reserved .reserved)] := by
  cases hi with
  | direct data => exact .inl ⟨_, .data (.direct (.ofBytes data))⟩
  | sized f data => exact .inl ⟨_, .data (.sized f (.ofBytes data))⟩
  | op o hfield =>
      have hpush : (Token.op o).isPush = true := by
        simpa [isPushOnly, Instruction.tokens] using h
      rcases op_of_isPush hpush with ⟨f, rfl⟩ | ⟨c, rfl⟩ | rfl
      · exact absurd rfl (hfield f)
      · exact .inl ⟨_, .constant c⟩
      · exact .inr rfl
  | undefined code => cases h

/-- A script in disassembled form that only pushes is a row of pushes, or fails at an `OP_RESERVED`
behind such a row. -/
theorem pushes_of_isPushOnly {script : Bytes} (h : isPushOnly (disassemble script) = true) :
    (∃ items, Pushes (disassemble script) items) ∨
      ∃ front items back, disassemble script = front ++ .op (.reserved .reserved) :: back ∧
        Pushes front items := by
  have hwell := (Instruction.parse_wellFormed script).1
  unfold disassemble at h ⊢
  generalize Instruction.parse script = is at h hwell
  induction hwell with
  | nil => exact .inl ⟨[], .nil⟩
  | truncated => cases h
  | cons i rest hi _ ih =>
      rw [List.flatMap_cons, isPushOnly, List.all_append, Bool.and_eq_true] at h
      rw [List.flatMap_cons]
      rcases push_of_isPushOnly hi h.1 with ⟨item, hpush⟩ | hreserved
      · rcases ih h.2 with ⟨items, hitems⟩ | ⟨front, items, back, hsplit, hfront⟩
        · exact .inl ⟨_, .cons hpush hitems⟩
        · refine .inr ⟨i.tokens ++ front, _, back, ?_, .cons hpush hfront⟩
          rw [hsplit, List.append_assoc]
      · refine .inr ⟨[], [], rest.flatMap Instruction.tokens, ?_, .nil⟩
        rw [hreserved]
        rfl

namespace Machine

variable {env : Environment} {m : Machine} {left : Nat} {rest : List Token}

/-! ## Steps in a branch that is taken -/

/-- A computation in a branch that is taken has to leave the stacks low enough. -/
theorem whenExecuting_ok {c : StepM TookNext} {took : TookNext} {n : Machine}
    (hm : m.executing = true) (hc : c m = .ok took n)
    (hheights : n.memory.main.height + n.memory.alt.height ≤ env.policy.maxStack) :
    whenExecuting env c m = .ok took n := by
  rw [whenExecuting_taken env c hm, bind_apply, hc]
  simp only
  rw [bind_apply, checkHeights_apply, if_neg (Int.not_lt.mpr hheights)]
  rfl

/-- A computation that halts in a branch that is taken halts the step. -/
theorem whenExecuting_error {c : StepM TookNext} {e : Halt} {n : Machine} (hm : m.executing = true)
    (hc : c m = .error e n) : whenExecuting env c m = .error e n := by
  rw [whenExecuting_taken env c hm, bind_apply, hc]

/-- A token that fails where it is executed halts its step in a branch that is taken. -/
theorem step_failsExecuted {t : Token} (ht : t.failsExecuted = true) (hm : m.executing = true) :
    step env left rest t m = .error (.failed (.executed t)) m := by
  rw [step_eq_of_failsExecuted ht]
  exact whenExecuting_error hm rfl

/-! ## Machines with given items -/

/-- The machine at the start of a pair of scripts, but for the items on its stack, its log and the
script that signatures commit to. -/
def holding (maxStack : Int) (items : List Bytes) (log code : List Token) : Machine :=
  { start maxStack with memory.main.items := items, log, code }

variable {items : List Bytes} {log code : List Token}

/-- A run goes on behind a step. -/
theorem run_cons_ok {maxStack : Int} {t : Token} {took : TookNext} {n : Machine}
    (h : step env left rest t (holding maxStack items (t :: log) code) = .ok took n) :
    run env left (t :: rest) (holding maxStack items log code) =
      resume env took (left - 1) rest n := by
  rw [run_cons_apply]
  change (step env left rest t >>= _) (holding maxStack items (t :: log) code) = _
  rw [bind_apply, h]

/-- A run halts where a step does. -/
theorem run_cons_error {maxStack : Int} {t : Token} {e : Halt} {n : Machine}
    (h : step env left rest t (holding maxStack items (t :: log) code) = .error e n) :
    run env left (t :: rest) (holding maxStack items log code) = .error e n := by
  rw [run_cons_apply]
  change (step env left rest t >>= _) (holding maxStack items (t :: log) code) = _
  rw [bind_apply, h]

/-! ## Steps that push -/

/-- A literal that is short enough is pushed if there is room. -/
theorem pushLiteral_holding {l : Literal} (hsize : l.data.length ≤ maxItemSize) {maxStack : Int}
    (hroom : (items.length : Int) + 1 ≤ maxStack) :
    pushLiteral l (holding maxStack items log code) =
      .ok () (holding maxStack (l.data :: items) log code) := by
  have hheight : ¬maxStack < (items.length : Int) + 1 := Int.not_lt.mpr hroom
  rw [pushLiteral, if_neg (Nat.not_lt.mpr hsize)]
  simp [onMainStack, onStacks, onMain, Stack.push, bind_apply, Stack.requireRoom, holding, start,
    Stack.height, hheight, Stack.place]

/-- A literal that is too long, or for which there is no room, fails the script. -/
theorem pushLiteral_refused {l : Literal} {maxStack : Int}
    (h : ¬(l.data.length ≤ maxItemSize ∧ (items.length : Int) + 1 ≤ maxStack))
    (log code : List Token) :
    ∃ reason n, pushLiteral l (holding maxStack items log code) = .error (.failed reason) n := by
  by_cases hsize : l.data.length ≤ maxItemSize
  · have hheight : maxStack < (items.length : Int) + 1 :=
      Int.not_le.mp fun hroom ↦ h ⟨hsize, hroom⟩
    refine ⟨.stack .overflow, holding maxStack items log code, ?_⟩
    rw [pushLiteral, if_neg (Nat.not_lt.mpr hsize)]
    simp [onMainStack, onStacks, onMain, Stack.push, bind_apply, Stack.requireRoom, holding, start,
      Stack.height, hheight]
  · refine ⟨.pushTooLong l.data.length, holding maxStack items log code, ?_⟩
    rw [pushLiteral, if_pos (Nat.not_le.mp hsize)]
    rfl

/-- A literal that is short enough is pushed by a step if there is room. -/
theorem step_literal {l : Literal} (hsize : l.data.length ≤ maxItemSize)
    (hroom : (items.length : Int) + 1 ≤ env.policy.maxStack) :
    step env left rest (.literal l) (holding env.policy.maxStack items log code) =
      .ok false (holding env.policy.maxStack (l.data :: items) log code) := by
  refine whenExecuting_ok rfl ?_ ?_
  · rw [bind_apply, pushLiteral_holding hsize hroom]
    rfl
  · simpa [holding, start, Stack.height] using hroom

/-- A literal behind a length field is pushed by the step of the field if there is room. -/
theorem step_pushData {f : LengthField} {l : Literal} (hsize : l.data.length ≤ maxItemSize)
    (hroom : (items.length : Int) + 1 ≤ env.policy.maxStack) :
    step env left (.literal l :: rest) (.op (.pushData f))
        (holding env.policy.maxStack items log code) =
      .ok true (holding env.policy.maxStack (l.data :: items) (.literal l :: log) code) := by
  rw [step_op]
  refine whenExecuting_ok rfl ?_ ?_
  · change (do pushLiteral l; record (.literal l); return true : StepM TookNext) _ = _
    rw [bind_apply, pushLiteral_holding hsize hroom]
    rfl
  · simpa [holding, start, Stack.height] using hroom

/-- A constant is pushed by a step if there is room. -/
theorem step_constant (c : Constant) (hroom : (items.length : Int) + 1 ≤ env.policy.maxStack) :
    step env left rest (.op (.stack (.constant c))) (holding env.policy.maxStack items log code) =
      .ok false (holding env.policy.maxStack (Number.encode c.value :: items) log code) := by
  have hheight : ¬env.policy.maxStack < (items.length : Int) + 1 := Int.not_lt.mpr hroom
  rw [step_op]
  refine whenExecuting_ok rfl ?_ ?_
  · simp [StackOp.perform, onStacks, onMain, Stack.pushNumber, Stack.push, bind_apply,
      Stack.requireRoom, holding, start, Stack.height, hheight, Stack.place, require, pure,
      EStateM.pure]
  · simpa [holding, start, Stack.height] using hroom

/-- A literal that is too long, or for which there is no room, halts its step. -/
theorem step_literal_refused {l : Literal}
    (h : ¬(l.data.length ≤ maxItemSize ∧ (items.length : Int) + 1 ≤ env.policy.maxStack))
    (left : Nat) (rest log code : List Token) :
    ∃ reason n, step env left rest (.literal l) (holding env.policy.maxStack items log code) =
      .error (.failed reason) n := by
  obtain ⟨reason, n, hrefused⟩ := pushLiteral_refused h log code
  refine ⟨reason, n, whenExecuting_error rfl ?_⟩
  rw [bind_apply, hrefused]

/-- A literal that is too long, or for which there is no room, halts the step of its field. -/
theorem step_pushData_refused (f : LengthField) {l : Literal}
    (h : ¬(l.data.length ≤ maxItemSize ∧ (items.length : Int) + 1 ≤ env.policy.maxStack))
    (left : Nat) (rest log code : List Token) :
    ∃ reason n, step env left (.literal l :: rest) (.op (.pushData f))
      (holding env.policy.maxStack items log code) = .error (.failed reason) n := by
  obtain ⟨reason, n, hrefused⟩ := pushLiteral_refused h log code
  rw [step_op]
  refine ⟨reason, n, whenExecuting_error rfl ?_⟩
  change (do pushLiteral l; record (.literal l); return true : StepM TookNext) _ = _
  rw [bind_apply, hrefused]

/-- A constant for which there is no room halts its step. -/
theorem step_constant_refused (c : Constant)
    (h : ¬(items.length : Int) + 1 ≤ env.policy.maxStack)
    (left : Nat) (rest log code : List Token) :
    ∃ reason n, step env left rest (.op (.stack (.constant c)))
      (holding env.policy.maxStack items log code) = .error (.failed reason) n := by
  have hheight : env.policy.maxStack < (items.length : Int) + 1 := Int.not_le.mp h
  rw [step_op]
  refine ⟨.stack .overflow, holding env.policy.maxStack items log code,
    whenExecuting_error rfl ?_⟩
  simp [-bind_pure_comp, StackOp.perform, onStacks, onMain, Stack.pushNumber, Stack.push,
    bind_apply, Stack.requireRoom, holding, start, Stack.height, hheight]

/-! ## Runs that push -/

/-- A push of a short enough item, for which there is room, leaves the item on the stack. -/
theorem run_push {push : List Token} {item : Bytes} (h : Push push item)
    (hsize : item.length ≤ maxItemSize) (hroom : (items.length : Int) + 1 ≤ env.policy.maxStack)
    (left : Nat) (back log code : List Token) :
    ∃ log', run env left (push ++ back) (holding env.policy.maxStack items log code) =
      run env (left - push.length) back
        (holding env.policy.maxStack (item :: items) log' code) := by
  cases h with
  | data hdata =>
      cases hdata with
      | direct l => exact ⟨_, run_cons_ok (step_literal hsize hroom)⟩
      | sized f l => exact ⟨_, run_cons_ok (step_pushData hsize hroom)⟩
  | constant c => exact ⟨_, run_cons_ok (step_constant c hroom)⟩

/-- A push of an item that is too long, or for which there is no room, fails the script. -/
theorem run_push_refused {push : List Token} {item : Bytes} (h : Push push item)
    (hrefused : ¬(item.length ≤ maxItemSize ∧ (items.length : Int) + 1 ≤ env.policy.maxStack))
    (left : Nat) (back log code : List Token) :
    ∃ reason n, run env left (push ++ back) (holding env.policy.maxStack items log code) =
      .error (.failed reason) n := by
  cases h with
  | data hdata =>
      cases hdata with
      | direct l =>
          obtain ⟨reason, n, hstep⟩ := step_literal_refused hrefused left back _ code
          exact ⟨reason, n, run_cons_error hstep⟩
      | sized f l =>
          obtain ⟨reason, n, hstep⟩ := step_pushData_refused f hrefused left back _ code
          exact ⟨reason, n, run_cons_error hstep⟩
  | constant c =>
      have hfull : ¬(items.length : Int) + 1 ≤ env.policy.maxStack :=
        fun hroom ↦ hrefused ⟨length_encode_constant c, hroom⟩
      obtain ⟨reason, n, hstep⟩ := step_constant_refused c hfull left back _ code
      exact ⟨reason, n, run_cons_error hstep⟩

/-- Pushes of short enough items, for which there is room, leave their items on the stack. -/
theorem run_pushes {tokens : List Token} {pushed : List Bytes} (h : Pushes tokens pushed)
    (hsizes : ∀ item ∈ pushed, item.length ≤ maxItemSize)
    (hroom : (items.length : Int) + pushed.length ≤ env.policy.maxStack)
    (left : Nat) (back log code : List Token) :
    ∃ log', run env left (tokens ++ back) (holding env.policy.maxStack items log code) =
      run env (left - tokens.length) back
        (holding env.policy.maxStack (pushed.reverse ++ items) log' code) := by
  induction h generalizing left items log with
  | nil => exact ⟨log, rfl⟩
  | @cons push rest item pushed hpush _ ih =>
      rw [List.length_cons] at hroom
      have hone : (items.length : Int) + 1 ≤ env.policy.maxStack := by omega
      have hothers : ((item :: items).length : Int) + pushed.length ≤ env.policy.maxStack := by
        rw [List.length_cons]
        omega
      obtain ⟨log', hfirst⟩ :=
        run_push hpush (hsizes item List.mem_cons_self) hone left (rest ++ back) log code
      obtain ⟨log'', hrest⟩ :=
        ih (fun other h ↦ hsizes other (List.mem_cons_of_mem item h)) hothers
          (left - push.length) log'
      refine ⟨log'', ?_⟩
      rw [List.append_assoc, hfirst, hrest, List.length_append, Nat.sub_sub, List.reverse_cons,
        List.append_assoc]
      rfl

/-- Pushes of which one is too long, or has no room, fail the script. -/
theorem run_pushes_refused {tokens : List Token} {pushed : List Bytes}
    (h : Pushes tokens pushed) (hbelow : (items.length : Int) ≤ env.policy.maxStack)
    (hrefused : ¬((∀ item ∈ pushed, item.length ≤ maxItemSize) ∧
      (items.length : Int) + pushed.length ≤ env.policy.maxStack))
    (left : Nat) (back log code : List Token) :
    ∃ reason n, run env left (tokens ++ back) (holding env.policy.maxStack items log code) =
      .error (.failed reason) n := by
  induction h generalizing left items log with
  | nil =>
      refine absurd ⟨fun _ h ↦ absurd h List.not_mem_nil, ?_⟩ hrefused
      rwa [List.length_nil, Int.natCast_zero, Int.add_zero]
  | @cons push rest item pushed hpush _ ih =>
      rw [List.append_assoc]
      by_cases hfits : item.length ≤ maxItemSize ∧ (items.length : Int) + 1 ≤ env.policy.maxStack
      · obtain ⟨log', hfirst⟩ := run_push hpush hfits.1 hfits.2 left (rest ++ back) log code
        have hone : ((item :: items).length : Int) ≤ env.policy.maxStack := by
          rw [List.length_cons]
          omega
        rw [hfirst]
        refine ih hone (fun hothers ↦ hrefused ⟨?_, ?_⟩) _ _
        · exact List.forall_mem_cons.mpr ⟨hfits.1, hothers.1⟩
        · have hroom := hothers.2
          rw [List.length_cons] at hroom ⊢
          omega
      · exact run_push_refused hpush hfits left (rest ++ back) log code

end Machine

end BitcoinSpend.Script
