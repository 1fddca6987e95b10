import BitcoinSpend.Proofs.Script.Machine.Room
import BitcoinSpend.Proofs.Script.Stack

/-!
# Opcodes that compute

An opcode that computes with numbers takes its operands off the main stack, in whatever form they
are written, and pushes the shortest form of its result. It fails the script if there are too few
operands or if one is too long. Read `Arithmetic` and `Computes` first: they name these opcodes and
say what each of them pushes. The main result is `run_arithmetic`.
-/

namespace BitcoinSpend.Script

/-- The opcodes that compute with numbers, and how many operands each of them takes. -/
inductive Arithmetic : StackOp → Nat → Prop where
  | unary (op : Unary) : Arithmetic (.unary op) 1
  | binary (op : Binary) : Arithmetic (.binary op) 2
  | within : Arithmetic .within 3

/-- The item that stands for a truth value: the byte `01` or the empty string. -/
def truthItem (p : Prop) [Decidable p] : Bytes :=
  if p then [0x01] else []

/-- The item that an opcode pushes for its operands, the deepest one first. -/
inductive Computes : StackOp → List Int → Bytes → Prop where
  | addOne (a : Int) : Computes (.unary .addOne) [a] (Number.encode (a + 1))
  | subOne (a : Int) : Computes (.unary .subOne) [a] (Number.encode (a - 1))
  | negate (a : Int) : Computes (.unary .negate) [a] (Number.encode (-a))
  | abs (a : Int) : Computes (.unary .abs) [a] (Number.encode |a|)
  | isZero (a : Int) : Computes (.unary .isZero) [a] (truthItem (a = 0))
  | isNonzero (a : Int) : Computes (.unary .isNonzero) [a] (truthItem (a ≠ 0))
  | add (a b : Int) : Computes (.binary .add) [a, b] (Number.encode (a + b))
  | sub (a b : Int) : Computes (.binary .sub) [a, b] (Number.encode (a - b))
  | boolAnd (a b : Int) : Computes (.binary .boolAnd) [a, b] (truthItem (a ≠ 0 ∧ b ≠ 0))
  | boolOr (a b : Int) : Computes (.binary .boolOr) [a, b] (truthItem (a ≠ 0 ∨ b ≠ 0))
  | numEqual (a b : Int) : Computes (.binary .numEqual) [a, b] (truthItem (a = b))
  | numNotEqual (a b : Int) : Computes (.binary .numNotEqual) [a, b] (truthItem (a ≠ b))
  | lessThan (a b : Int) : Computes (.binary .lessThan) [a, b] (truthItem (a < b))
  | greaterThan (a b : Int) : Computes (.binary .greaterThan) [a, b] (truthItem (a > b))
  | lessThanOrEqual (a b : Int) :
      Computes (.binary .lessThanOrEqual) [a, b] (truthItem (a ≤ b))
  | greaterThanOrEqual (a b : Int) :
      Computes (.binary .greaterThanOrEqual) [a, b] (truthItem (a ≥ b))
  | minimum (a b : Int) : Computes (.binary .minimum) [a, b] (Number.encode (min a b))
  | maximum (a b : Int) : Computes (.binary .maximum) [a, b] (Number.encode (max a b))
  | within (a lower upper : Int) :
      Computes .within [a, lower, upper] (truthItem (lower ≤ a ∧ a < upper))

/-! ## Operands -/

/-- Removes so many operands, the deepest one first. -/
def popOperands : Nat → StackM (List Int)
  | 0 => return []
  | count + 1 => do
    let top ← Stack.popNumber
    let deeper ← popOperands count
    return deeper ++ [top]

/-- A number on top is popped, whether or not it is short enough to be an operand. -/
theorem popNumber_cons {s : Stack} {bs : Bytes} {below : List Bytes}
    (hitems : s.items = bs :: below) :
    Stack.popNumber s =
      if bs.length ≤ 4 then .ok (Number.value bs) { s with items := below }
      else .error (.number (.tooLong bs.length 4)) { s with items := below } := by
  obtain ⟨items, maxSize⟩ := s
  obtain rfl : items = bs :: below := hitems
  rw [Stack.popNumber, Stack.popNumberUpTo_cons]
  by_cases hsize : bs.length ≤ 4
  · have hread : Number.decode Number.maxSize bs = .ok (Number.value bs) :=
      (Number.decode_eq_ok_value_iff Number.maxSize).mpr (.inr (Int.ofNat_le.mpr hsize))
    rw [hread, if_pos hsize]
  · have hnonempty : bs ≠ [] := by
      rintro rfl
      exact hsize (Nat.zero_le 4)
    have hlimit : Number.maxSize < bs.length := Int.ofNat_lt.mpr (Nat.lt_of_not_le hsize)
    rw [Number.decode_eq_error_iff.mpr ⟨hnonempty, hlimit, rfl⟩, if_neg hsize,
      Number.oversize_maxSize]

/-- Operands that are short enough are removed and read. -/
theorem popOperands_of_le {taken below : List Bytes} (hsizes : ∀ bs ∈ taken, bs.length ≤ 4)
    {s : Stack} (hitems : s.items = taken ++ below) :
    popOperands taken.length s =
      .ok (taken.reverse.map Number.value) { s with items := below } := by
  induction taken generalizing s with
  | nil =>
      rw [List.nil_append] at hitems
      subst hitems
      rfl
  | cons bs taken ih =>
      obtain ⟨hbs, htaken⟩ := List.forall_mem_cons.mp hsizes
      have hitems : s.items = bs :: (taken ++ below) := hitems
      have hfirst := popNumber_cons hitems
      rw [if_pos hbs] at hfirst
      have hrest := ih htaken (s := { s with items := taken ++ below }) rfl
      rw [List.length_cons, popOperands, Machine.bind_of_ok hfirst, Machine.bind_of_ok hrest,
        List.reverse_cons, List.map_append]
      rfl

/-- If there are too few operands, or if one is too long, removing them fails. -/
theorem popOperands_refused {count : Nat} {s : Stack}
    (h : s.items.length < count ∨ ∃ bs ∈ s.items.take count, 4 < bs.length) :
    ∃ e t, popOperands count s = .error e t := by
  induction count generalizing s with
  | zero => simp at h
  | succ count ih =>
      rw [popOperands]
      cases hitems : s.items with
      | nil =>
          refine ⟨.underflow 1 0, s, Machine.bind_of_error (Machine.bind_of_error ?_ _) _⟩
          rw [Stack.pop, hitems]
      | cons bs below =>
          have hfirst := popNumber_cons hitems
          by_cases hbs : bs.length ≤ 4
          · rw [if_pos hbs] at hfirst
            rw [hitems, List.length_cons, List.take_succ_cons, List.exists_mem_cons_iff] at h
            have hdeeper : below.length < count ∨ ∃ bs ∈ below.take count, 4 < bs.length :=
              h.imp (by omega) fun h ↦ h.resolve_left (by omega)
            obtain ⟨e, t, hrest⟩ := ih (s := { s with items := below }) hdeeper
            exact ⟨e, t, (Machine.bind_of_ok hfirst _).trans (Machine.bind_of_error hrest _)⟩
          · rw [if_neg hbs] at hfirst
            exact ⟨_, _, Machine.bind_of_error hfirst _⟩

/-! ## Results -/

/-- The result of an opcode on its operands, the deepest one first. Truth values are the numbers one
and zero. -/
def StackOp.result : StackOp → List Int → Int
  | .unary op, [a] => op.apply a
  | .binary op, [a, b] => op.apply a b
  | .within, [a, lower, upper] => Number.ofBool (lower ≤ a && a < upper)
  | _, _ => 0

/-- Removes operands and pushes what a function makes of them. -/
def operate (count : Nat) (f : List Int → Int) : StackM Unit := do
  Stack.pushNumber (f (← popOperands count))

/-- What is done on the main stack before a value is returned may also be done with it. -/
theorem onMain_bind_pure (c : StackM Unit) (b : Bool) :
    onMain (do c; return b) = (do onMain c; return b : StacksM Bool) := by
  funext s
  rw [onMain, Machine.bind_apply, Machine.bind_apply, onMain]
  cases c s.main <;> rfl

/-- An opcode that computes removes its operands and pushes its result. -/
theorem perform_arithmetic {op : StackOp} {count : Nat} (h : Arithmetic op count) :
    op.perform = (do onMain (operate count op.result); return true) := by
  cases h with
  | unary op =>
      rw [← onMain_bind_pure]
      simp only [StackOp.perform, operate, popOperands, bind_assoc, pure_bind, List.nil_append,
        StackOp.result]
  | binary op =>
      simp only [StackOp.perform, Binary.perform, operate, popOperands, bind_assoc, pure_bind,
        List.nil_append, List.cons_append, StackOp.result]
  | within =>
      rw [← onMain_bind_pure]
      simp only [StackOp.perform, operate, popOperands, bind_assoc, pure_bind, List.nil_append,
        List.cons_append, StackOp.result, Stack.pushBool]

/-- The number that stands for a truth value is written as its item. -/
theorem encode_ofBool_decide (p : Prop) [Decidable p] :
    Number.encode (Number.ofBool (decide p)) = truthItem p := by
  rw [truthItem]
  by_cases h : p
  · rw [decide_eq_true h, if_pos h]
    decide
  · rw [decide_eq_false h, if_neg h]
    decide

/-- What is pushed for the operands of an opcode is the shortest form of its result. -/
theorem computes_result {op : StackOp} {count : Nat} (h : Arithmetic op count) {values : List Int}
    (hcount : values.length = count) : Computes op values (Number.encode (op.result values)) := by
  cases h with
  | unary op =>
      obtain ⟨a, rfl⟩ := List.length_eq_one_iff.mp hcount
      cases op with
      | addOne => exact .addOne a
      | subOne => exact .subOne a
      | negate => exact .negate a
      | abs =>
          rw [StackOp.result, Unary.apply, Int.natCast_natAbs]
          exact .abs a
      | isZero => exact encode_ofBool_decide (a = 0) ▸ .isZero a
      | isNonzero => exact encode_ofBool_decide (a ≠ 0) ▸ .isNonzero a
  | binary op =>
      obtain ⟨a, b, rfl⟩ := List.length_eq_two.mp hcount
      cases op with
      | add => exact .add a b
      | sub => exact .sub a b
      | boolAnd =>
          have hitem := encode_ofBool_decide (a ≠ 0 ∧ b ≠ 0)
          rw [Bool.decide_and] at hitem
          exact hitem ▸ .boolAnd a b
      | boolOr =>
          have hitem := encode_ofBool_decide (a ≠ 0 ∨ b ≠ 0)
          rw [Bool.decide_or] at hitem
          exact hitem ▸ .boolOr a b
      | numEqual => exact encode_ofBool_decide (a = b) ▸ .numEqual a b
      | numNotEqual => exact encode_ofBool_decide (a ≠ b) ▸ .numNotEqual a b
      | lessThan => exact encode_ofBool_decide (a < b) ▸ .lessThan a b
      | greaterThan => exact encode_ofBool_decide (a > b) ▸ .greaterThan a b
      | lessThanOrEqual => exact encode_ofBool_decide (a ≤ b) ▸ .lessThanOrEqual a b
      | greaterThanOrEqual => exact encode_ofBool_decide (a ≥ b) ▸ .greaterThanOrEqual a b
      | minimum => exact .minimum a b
      | maximum => exact .maximum a b
  | within =>
      obtain ⟨a, lower, upper, rfl⟩ := List.length_eq_three.mp hcount
      have hitem := encode_ofBool_decide (lower ≤ a ∧ a < upper)
      rw [Bool.decide_and] at hitem
      exact hitem ▸ .within a lower upper

/-- Results of operands have at most five bytes. -/
theorem length_encode_result_le {op : StackOp} {count : Nat} (h : Arithmetic op count)
    {values : List Int} (hcount : values.length = count)
    (hvalues : ∀ v ∈ values, v.natAbs < 2 ^ 31) :
    (Number.encode (op.result values)).length ≤ 5 := by
  have hfive : Number.signBit 5 = 2 ^ 39 := by decide
  rw [Number.length_encode_le_iff, hfive]
  right
  cases h with
  | unary op =>
      obtain ⟨a, rfl⟩ := List.length_eq_one_iff.mp hcount
      have ha := hvalues a (by simp)
      have hresult := Machine.natAbs_unary_le op a
      simp only [StackOp.result]
      omega
  | binary op =>
      obtain ⟨a, b, rfl⟩ := List.length_eq_two.mp hcount
      have ha := hvalues a (by simp)
      have hb := hvalues b (by simp)
      have hresult := Machine.natAbs_binary_le op a b
      simp only [StackOp.result]
      omega
  | within =>
      obtain ⟨a, lower, upper, rfl⟩ := List.length_eq_three.mp hcount
      exact Nat.lt_of_le_of_lt (Machine.natAbs_ofBool_le _) (by decide)

/-! ## Runs -/

namespace Machine

variable {env : Environment} {m : Machine} {op : StackOp} {count : Nat}

/-- An opcode on the stacks is performed, and must not verify in vain. -/
theorem step_stackOp (left : Nat) (rest : List Token) :
    step env left rest (.op (.stack op)) = whenExecuting env (do
      (onStacks op.perform >>= require : StepM Unit)
      return false) := by
  simp only [step_op, opcode, bind_assoc]

/-- An opcode that computes replaces its operands by its result, and then the stacks are checked and
the run goes on. -/
theorem run_arithmetic_ok (h : Arithmetic op count) (hm : m.executing = true)
    (hfits : (m.memory.main.height : Int) ≤ m.memory.main.maxSize) {operands below : List Bytes}
    (hitems : m.memory.main.items = operands.reverse ++ below) (hcount : operands.length = count)
    (hsizes : ∀ bs ∈ operands, bs.length ≤ 4) (left : Nat) (rest : List Token) :
    run env left (.op (.stack op) :: rest) m = (do
      checkHeights env
      run env (left - 1) rest : StepM Unit)
        { m with
          memory.main.items :=
            Number.encode (op.result (operands.map Number.value)) :: below
          log := .op (.stack op) :: m.log } := by
  have hpositive : 0 < count := by cases h <;> decide
  have hpop := popOperands_of_le (fun bs hbs ↦ hsizes bs (List.mem_reverse.mp hbs)) hitems
  rw [List.length_reverse, hcount, List.reverse_reverse] at hpop
  have hroom : ¬m.memory.main.maxSize < (below.length : Int) + 1 := by
    rw [Stack.height, hitems, List.length_append, List.length_reverse] at hfits
    omega
  have hoperate : operate count op.result m.memory.main = .ok ()
      { m.memory.main with
        items := Number.encode (op.result (operands.map Number.value)) :: below } := by
    rw [operate, bind_of_ok hpop, Stack.pushNumber, Stack.push_apply]
    exact if_neg hroom
  have hperform : op.perform m.memory = .ok true
      { m.memory with
        main.items := Number.encode (op.result (operands.map Number.value)) :: below } := by
    rw [perform_arithmetic h, bind_apply, onMain, hoperate]
    rfl
  have hrequire : (onStacks op.perform >>= require : StepM Unit)
      { m with log := .op (.stack op) :: m.log } = .ok ()
        { m with
          memory.main.items := Number.encode (op.result (operands.map Number.value)) :: below
          log := .op (.stack op) :: m.log } := by
    rw [bind_apply, onStacks, hperform]
    rfl
  rw [run_cons_taken hm (step_stackOp left rest), bind_of_ok hrequire]

/-- An opcode that computes fails the script if there are too few operands or if one is too long. -/
theorem run_arithmetic_refused (h : Arithmetic op count) (hm : m.executing = true)
    (hoperands : m.memory.main.items.length < count ∨
      ∃ bs ∈ m.memory.main.items.take count, 4 < bs.length) (left : Nat) (rest : List Token) :
    ∃ reason n, run env left (.op (.stack op) :: rest) m = .error (.failed reason) n := by
  obtain ⟨e, t, hpop⟩ := popOperands_refused hoperands
  have hoperate : operate count op.result m.memory.main = .error e t := bind_of_error hpop _
  have hperform : op.perform m.memory = .error e { m.memory with main := t } := by
    rw [perform_arithmetic h, bind_apply, onMain, hoperate]
  have hstacks : onStacks op.perform { m with log := .op (.stack op) :: m.log } =
      .error (.failed (.stack e))
        { m with memory.main := t, log := .op (.stack op) :: m.log } := by
    rw [onStacks, hperform]
  refine ⟨.stack e, { m with memory.main := t, log := .op (.stack op) :: m.log }, ?_⟩
  rw [run_cons_taken hm (step_stackOp left rest)]
  exact bind_of_error (bind_of_error hstacks _) _

/-- An opcode that computes, executed on a main stack that keeps within its limit, takes off its
operands, each of which may be written in any form of at most four bytes, and pushes the shortest
form of its result, which has at most five bytes. Nothing else on the stacks changes. Behind it both
stacks are held against the limit of the policy, within which they remain if they have been before.
With too few operands, or one of more than four bytes, the opcode fails the script. -/
theorem run_arithmetic (h : Arithmetic op count) (hm : m.executing = true) :
    ((m.memory.main.height : Int) ≤ m.memory.main.maxSize →
      ∀ operands below : List Bytes, m.memory.main.items = operands.reverse ++ below →
      operands.length = count → (∀ bs ∈ operands, bs.length ≤ 4) →
      ∃ item after, Computes op (operands.map Number.value) item ∧ item.length ≤ 5 ∧
        (∀ bs, Number.value bs = Number.value item → bs = item ∨ item.length < bs.length) ∧
        after = { m with memory.main.items := item :: below, log := .op (.stack op) :: m.log } ∧
        (∀ left rest, run env left (.op (.stack op) :: rest) m = (do
          checkHeights env
          run env (left - 1) rest : StepM Unit) after) ∧
        ((m.memory.main.height + m.memory.alt.height : Int) ≤ env.policy.maxStack →
          checkHeights env after = .ok () after)) ∧
    ((m.memory.main.items.length < count ∨
        ∃ bs ∈ m.memory.main.items.take count, 4 < bs.length) →
      ∀ left rest, ∃ reason n,
        run env left (.op (.stack op) :: rest) m = .error (.failed reason) n) := by
  refine ⟨fun hfits operands below hitems hcount hsizes ↦ ?_, run_arithmetic_refused h hm⟩
  have hlength : (operands.map Number.value).length = count := by rw [List.length_map, hcount]
  have hvalues : ∀ v ∈ operands.map Number.value, v.natAbs < 2 ^ 31 := by
    intro v hv
    obtain ⟨bs, hbs, rfl⟩ := List.mem_map.mp hv
    exact Number.natAbs_value_lt (hsizes bs hbs)
  refine ⟨_, _, computes_result h hlength, length_encode_result_le h hlength hvalues, ?_, rfl,
    run_arithmetic_ok h hm hfits hitems hcount hsizes, fun hboth ↦ ?_⟩
  · intro bs hbs
    rw [Number.value_encode] at hbs
    rw [← hbs]
    exact Number.eq_encode_or_length_lt bs
  · have hpositive : 0 < count := by cases h <;> decide
    rw [Stack.height, hitems, List.length_append, List.length_reverse, hcount] at hboth
    rw [checkHeights_apply, if_neg]
    rw [Int.not_lt]
    change ((below.length + 1 : Nat) + m.memory.alt.height : Int) ≤ _
    omega

/-- A machine in front of a subtraction of the greatest operand from the least one, above a zero. -/
def widestOperands : Machine where
  memory.main.items := [[0xff, 0xff, 0xff, 0x7f], [0xff, 0xff, 0xff, 0xff], [0x80]]

/-- The difference has five bytes. With one operand left, or where the zero below is replaced by an
operand that is too long, the script fails. -/
theorem run_arithmetic_widestOperands :
    Arithmetic (.binary .sub) 2 ∧ widestOperands.executing = true ∧
      run {} 0 [.op (.stack (.binary .sub))] widestOperands = .ok ()
        { widestOperands with
          memory.main.items := [[0xfe, 0xff, 0xff, 0xff, 0x80], [0x80]]
          log := [.op (.stack (.binary .sub))] } ∧
      (∃ reason n, run {} 0 [.op (.stack (.binary .sub))]
        { widestOperands with memory.main.items := [[0x01]] } = .error (.failed reason) n) ∧
      ∃ reason n, run {} 0 [.op (.stack (.binary .sub))]
        { widestOperands with memory.main.items := [[0x01], [0x01, 0x00, 0x00, 0x00, 0x00]] } =
          .error (.failed reason) n := by
  have hsub : Arithmetic (.binary .sub) 2 := .binary .sub
  let few : Machine := { widestOperands with memory.main.items := [[0x01]] }
  let long : Machine :=
    { widestOperands with memory.main.items := [[0x01], [0x01, 0x00, 0x00, 0x00, 0x00]] }
  obtain ⟨hdone, -⟩ := @run_arithmetic {} widestOperands _ _ hsub rfl
  obtain ⟨-, hfew⟩ := @run_arithmetic {} few _ _ hsub rfl
  obtain ⟨-, hlong⟩ := @run_arithmetic {} long _ _ hsub rfl
  obtain ⟨item, after, hitem, -, -, hafter, hrun, hheights⟩ := hdone (by decide)
    [[0xff, 0xff, 0xff, 0xff], [0xff, 0xff, 0xff, 0x7f]] [[0x80]] rfl rfl (by decide)
  refine ⟨hsub, rfl, ?_, hfew (.inl (by decide)) 0 [], hlong (.inr (by decide)) 0 []⟩
  have hdifference {a b : Int} {bs : Bytes} (h : Computes (.binary .sub) [a, b] bs) :
      bs = Number.encode (a - b) := by
    cases h
    rfl
  have hencode : Number.encode
      (Number.value [0xff, 0xff, 0xff, 0xff] - Number.value [0xff, 0xff, 0xff, 0x7f]) =
        [0xfe, 0xff, 0xff, 0xff, 0x80] := by
    decide +kernel
  rw [hrun 0 [], bind_of_ok (hheights (by decide)), hafter, hdifference hitem, hencode]
  rfl

end Machine

end BitcoinSpend.Script
