import BitcoinSpend.Proofs.Script.Executable
import BitcoinSpend.Proofs.Script.Machine.Push

/-!
# Runs of a payment to a script

A payment to a script asks for a script with a given digest. An unlocking script that does nothing
but push provides what it pushes last; `validatePair_scriptHash` says when that is the right script,
and `fits_of_validatePair_scriptHash` says that everything has to have room, with the digest above
what is pushed.
-/

namespace BitcoinSpend

/-! ## Witness programs -/

namespace Hex

/-- Hexadecimal text has at least two characters for each byte. -/
theorem length_decodeOnto {acc bs : Bytes} {cs : List Char} (h : decodeOnto acc cs = some bs) :
    2 * bs.length ≤ 2 * acc.length + cs.length := by
  fun_induction decodeOnto acc cs with
  | case1 acc =>
      cases h
      exact Nat.le_refl _
  | case2 acc c cs _ ih =>
      have hle := ih h
      rw [List.length_cons]
      omega
  | case3 => cases h
  | case4 acc c _ d rest high low _ _ ih =>
      have hle := ih h
      simp only [List.length_cons] at hle ⊢
      omega
  | case5 => cases h

/-- Hexadecimal text has at least two characters for each byte that it writes. -/
theorem length_decode? {text : String} {bs : Bytes} (h : decode? text = some bs) :
    2 * bs.length ≤ text.toList.length := by
  obtain ⟨reversed, hdecode, rfl⟩ := Option.map_eq_some_iff.mp h
  have hle := length_decodeOnto hdecode
  rw [List.length_reverse]
  rw [List.length_nil] at hle
  omega

end Hex

namespace Script

/-- A literal has at least two characters for each byte of its data. -/
theorem Literal.length_data (l : Literal) : 2 * l.data.length ≤ l.text.toList.length := by
  have hread := l.read_text
  unfold readLiteral? at hread
  split at hread
  · cases hread
  · exact Hex.length_decode? hread

/-- The data of a literal of a given size is no longer than that. -/
theorem Literal.length_of_hasSize {l : Literal} {size : Nat} (h : l.hasSize size = true) :
    l.data.length ≤ size := by
  have hdata := l.length_data
  have htext : l.text.toList.length = 2 * size := by
    rw [String.length_toList]
    simpa [Literal.hasSize] using h
  omega

/-- The literal for a byte string has the size of the byte string. -/
theorem Literal.hasSize_ofBytes (bs : Bytes) : (ofBytes bs).hasSize bs.length = true := by
  rw [hasSize, ← String.length_toList, ofBytes, Hex.toList_encode, Hex.length_flatMap_ofByte]
  exact decide_eq_true rfl

/-- What a witness program looks like. -/
theorem eq_of_witnessProgram {size : Nat} {script : List Token} {l : Literal}
    (h : witnessProgram? size script = some l) :
    ∃ version : Token, script = [version, .literal l] ∧
      version.opcode? = some (.stack (.constant .zero)) ∧ l.hasSize size = true := by
  unfold witnessProgram? at h
  split at h
  · next version k =>
      split at h
      · next hprogram =>
          cases h
          exact ⟨version, rfl, hprogram⟩
      · cases h
  · cases h

/-- A script that is a witness program is short. -/
theorem length_of_witnessProgram {size : Nat} (hsize : size < 256) {script : Bytes} {l : Literal}
    (h : witnessProgram? size (disassemble script) = some l) : script.length ≤ size + 3 := by
  obtain ⟨version, htokens, hversion, hl⟩ := eq_of_witnessProgram h
  have hdata := Literal.length_of_hasSize hl
  have hliteral : Executable (1 + 1 + l.data.length) [.literal l] :=
    .literal (f := .one) (Nat.lt_of_le_of_lt hdata hsize) (.nil 0) (Nat.le_refl _)
  have hencode : ∃ code, version.encode = .ok [code] := by
    cases version with
    | op o =>
        cases hversion
        exact ⟨_, rfl⟩
    | synonym a => exact ⟨_, rfl⟩
    | literal | invalid | unknown => cases hversion
  obtain ⟨code, hcode⟩ := hencode
  -- The text of the program bounds its tokens, and the script is what these assemble to.
  have hassemble := Instruction.assemble_disassemble script
  obtain ⟨bytes, hbytes, hlength⟩ :=
    Executable.exists_assemble (.single version _ hcode hliteral (Nat.le_refl _))
  rw [htokens, hbytes] at hassemble
  cases hassemble
  rw [List.length_singleton] at hlength
  omega

/-- The locking script of a payment to a script with a digest. -/
def payToScriptHash (digest : Literal) : List Token :=
  [.op (.stack (.hash .hash160)), .literal digest, .op (.stack (.inspect .equal))]

/-- What a payment to a script looks like. -/
theorem eq_of_scriptHash {locking : List Token} {l : Literal} (h : scriptHash? locking = some l) :
    locking = payToScriptHash l ∧ l.data.length ≤ maxItemSize := by
  unfold scriptHash? at h
  split at h
  · split at h
    · next hsize =>
        cases h
        exact ⟨rfl, Nat.le_trans (Literal.length_of_hasSize hsize) (by decide)⟩
    · cases h
  · cases h

/-- A locking script of three tokens is no witness program. -/
theorem not_program_of_scriptHash {locking : List Token} {l : Literal}
    (h : scriptHash? locking = some l) :
    witnessKeyHash? locking = none ∧ witnessScriptHash? locking = none := by
  obtain ⟨rfl, -⟩ := eq_of_scriptHash h
  exact ⟨rfl, rfl⟩

/-- A program that commits to a script commits to no key. -/
theorem not_witnessKeyHash {locking : List Token} {l : Literal}
    (h : witnessScriptHash? locking = some l) : witnessKeyHash? locking = none := by
  refine Option.eq_none_iff_forall_ne_some.mpr fun k hk ↦ ?_
  obtain ⟨version, rfl, -, hl⟩ := eq_of_witnessProgram h
  obtain ⟨_, heq, -, hsize⟩ := eq_of_witnessProgram hk
  cases heq
  simp only [Literal.hasSize, decide_eq_true_eq] at hl hsize
  omega

namespace Machine

variable {env : Environment} {m : Machine} {left : Nat} {rest : List Token}

/-! ## The run -/

variable {items : List Bytes} {log code : List Token}

/-- A hashing opcode replaces the top item. -/
theorem step_hash (h : HashOp) {top : Bytes}
    (hroom : (items.length : Int) + 1 ≤ env.policy.maxStack) :
    step env left rest (.op (.stack (.hash h)))
        (holding env.policy.maxStack (top :: items) log code) =
      .ok false (holding env.policy.maxStack (h.digest top :: items) log code) := by
  have hheight : ¬env.policy.maxStack < (items.length : Int) + 1 := Int.not_lt.mpr hroom
  rw [step_op]
  refine whenExecuting_ok rfl ?_ ?_
  · simp [StackOp.perform, onStacks, onMain, Stack.pop, Stack.push, bind_apply, Stack.requireRoom,
      holding, start, Stack.height, hheight, Stack.place, require, pure, EStateM.pure]
  · simpa [holding, start, Stack.height] using hroom

/-- A hashing opcode fails the script if there is no item. -/
theorem step_hash_empty (h : HashOp) :
    step env left rest (.op (.stack (.hash h))) (holding env.policy.maxStack [] log code) =
      .error (.failed (.stack (.underflow 1 0))) (holding env.policy.maxStack [] log code) := by
  rw [step_op]
  refine whenExecuting_error rfl ?_
  rfl

/-- A comparison replaces the two top items by its outcome. -/
theorem step_equal {a b : Bytes} (hroom : (items.length : Int) + 1 ≤ env.policy.maxStack) :
    step env left rest (.op (.stack (.inspect .equal)))
        (holding env.policy.maxStack (b :: a :: items) log code) =
      .ok false (holding env.policy.maxStack
        (Number.encode (Number.ofBool (a = b)) :: items) log code) := by
  have hheight : ¬env.policy.maxStack < (items.length : Int) + 1 := Int.not_lt.mpr hroom
  rw [step_op]
  refine whenExecuting_ok rfl ?_ ?_
  · simp [StackOp.perform, Inspect.perform, onStacks, onMain, Stack.popPair, Stack.pushBool,
      Stack.pushNumber, Stack.push, bind_apply, Stack.requireRoom, holding, start, Stack.height,
      hheight, Stack.place, require, pure, EStateM.pure]
  · simpa [holding, start, Stack.height] using hroom

/-- A payment to a script compares the digest of the top item if there is room for another. -/
theorem run_scriptHash {l : Literal} (hsize : l.data.length ≤ maxItemSize)
    (hroom : (items.length : Int) + 2 ≤ env.policy.maxStack) (redeem : Bytes)
    (log code : List Token) :
    ∃ log', run env 0 (payToScriptHash l) (holding env.policy.maxStack (redeem :: items) log code) =
      .ok () (holding env.policy.maxStack
        (Number.encode (Number.ofBool (Hash.hash160 redeem = l.data)) :: items) log' code) := by
  have hone : (items.length : Int) + 1 ≤ env.policy.maxStack := by omega
  have htwo : ((Hash.hash160 redeem :: items).length : Int) + 1 ≤ env.policy.maxStack := by
    rw [List.length_cons]
    omega
  exact ⟨_, (run_cons_ok (step_hash .hash160 hone)).trans
    ((run_cons_ok (step_literal hsize htwo)).trans (run_cons_ok (step_equal hone)))⟩

/-- A payment to a script fails if there is no room for another item. -/
theorem run_scriptHash_full (hfull : env.policy.maxStack = items.length + 1) (redeem : Bytes)
    (log code : List Token) (l : Literal) :
    ∃ reason n, run env 0 (payToScriptHash l)
      (holding env.policy.maxStack (redeem :: items) log code) = .error (.failed reason) n := by
  have hroom : (items.length : Int) + 1 ≤ env.policy.maxStack := by omega
  have htwo : ¬((Hash.hash160 redeem :: items).length : Int) + 1 ≤ env.policy.maxStack := by
    rw [List.length_cons]
    omega
  obtain ⟨reason, n, hrefused⟩ := step_literal_refused (fun hfits ↦ htwo hfits.2) (0 - 1)
    [.op (.stack (.inspect .equal))] (.literal l :: .op (.stack (.hash .hash160)) :: log) code
  exact ⟨reason, n, (run_cons_ok (step_hash .hash160 hroom)).trans (run_cons_error hrefused)⟩

/-- A payment to a script fails without an item. -/
theorem run_scriptHash_empty (l : Literal) (left : Nat) (log code : List Token) :
    ∃ reason n, run env left (payToScriptHash l) (holding env.policy.maxStack [] log code) =
      .error (.failed reason) n := by
  exact ⟨_, _, run_cons_error (step_hash_empty .hash160)⟩

/-! ## The result -/

/-- The result behind a run that has not failed, with all conditionals closed, is the truth of the
top item. -/
theorem validateStack_of_top {n : Machine} (hvalid : n.valid = true) (hclosed : n.conditions = [])
    {top : Bytes} (hitems : n.memory.main.items = top :: items) :
    ∃ n', validateStack n = .ok (Number.truth top) n' := by
  rw [validateStack, modify_bind_apply, get_bind_apply]
  simp only [hvalid, hclosed, hitems, List.isEmpty_nil, Bool.not_true, Bool.or_false,
    Bool.false_eq_true, if_false]
  exact ⟨_, rfl⟩

/-- A pair of scripts is run to the end if its run gets there. -/
theorem execute_of_run {unlocking locking : List Token} {n : Machine}
    (h : run env unlocking.length (unlocking ++ locking) { m with code := locking } = .ok () n) :
    execute env (unlocking ++ locking) unlocking.length m = .ok () n := by
  rw [execute, suffixFrom_length, Int.toNat_natCast, h]

/-- A run that fails makes the machine invalid. -/
theorem execute_of_run_failed {unlocking locking : List Token} {reason : Failure} {n : Machine}
    (h : run env unlocking.length (unlocking ++ locking) { m with code := locking } =
      .error (.failed reason) n) :
    execute env (unlocking ++ locking) unlocking.length m = .ok () { n with valid := false } := by
  rw [execute, suffixFrom_length, Int.toNat_natCast, h]

/-- A run that raises an error ends with the error. -/
theorem execute_of_run_raised {unlocking locking : List Token} {e : MachineError} {n : Machine}
    (h : run env unlocking.length (unlocking ++ locking) { m with code := locking } =
      .error (.raised e) n) :
    execute env (unlocking ++ locking) unlocking.length m = .error e n := by
  rw [execute, suffixFrom_length, Int.toNat_natCast, h]

section

variable {unlocking locking : List Token} {initial : List Bytes}

/-- Where the initial items have room, the result is what is left to take behind the run of both
scripts. -/
theorem validatePair_apply (hinitial : env.initial = initial)
    (hroom : (initial.length : Int) ≤ env.policy.maxStack) (unlocking locking : List Token) :
    validatePair env unlocking locking m = (do
      execute env (unlocking ++ locking) unlocking.length
      validateStack : MachineM Bool)
        { start env.policy.maxStack with memory.main.items := initial.reverse } := by
  subst hinitial
  rw [validatePair, bind_apply]
  change (pushInitial env >>= _) (start env.policy.maxStack) = _
  rw [bind_of_ok (pushInitial_of_le hroom)]

/-- A run that leaves items on the stack has the truth of the top one as its result. -/
theorem validatePair_of_run (hinitial : env.initial = initial)
    (hroom : (initial.length : Int) ≤ env.policy.maxStack) {top : Bytes} {n : Machine}
    (h : run env unlocking.length (unlocking ++ locking)
      (holding env.policy.maxStack initial.reverse [] locking) = .ok () n)
    (hvalid : n.valid = true) (hclosed : n.conditions = [])
    (hitems : n.memory.main.items = top :: items) :
    ∃ n', validatePair env unlocking locking m = .ok (Number.truth top) n' := by
  rw [validatePair_apply hinitial hroom, bind_of_ok (execute_of_run h)]
  exact validateStack_of_top hvalid hclosed hitems

/-- A run that fails has the result false. -/
theorem validatePair_of_run_failed (hinitial : env.initial = initial)
    (hroom : (initial.length : Int) ≤ env.policy.maxStack) {reason : Failure} {n : Machine}
    (h : run env unlocking.length (unlocking ++ locking)
      (holding env.policy.maxStack initial.reverse [] locking) = .error (.failed reason) n) :
    ∃ n', validatePair env unlocking locking m = .ok false n' := by
  rw [validatePair_apply hinitial hroom, bind_of_ok (execute_of_run_failed h)]
  exact ⟨_, rfl⟩

/-- A run that raises an error is an error. -/
theorem validatePair_of_run_raised (hinitial : env.initial = initial)
    (hroom : (initial.length : Int) ≤ env.policy.maxStack) {e : MachineError} {n : Machine}
    (h : run env unlocking.length (unlocking ++ locking)
      (holding env.policy.maxStack initial.reverse [] locking) = .error (.raised e) n) :
    validatePair env unlocking locking m = .error e n := by
  rw [validatePair_apply hinitial hroom, bind_of_error (execute_of_run_raised h)]

/-- A pair of scripts has a result only if there is room for the initial items. -/
theorem room_of_validatePair (hinitial : env.initial = initial) {b : Bool} {n : Machine}
    (h : validatePair env unlocking locking m = .ok b n) :
    (initial.length : Int) ≤ env.policy.maxStack := by
  subst hinitial
  by_contra hmax
  obtain ⟨_, _, hset, h⟩ := ok_of_bind h
  cases hset
  obtain ⟨_, a, hpush, -⟩ := ok_of_bind h
  rw [pushInitial_of_lt (Int.not_le.mp hmax)] at hpush
  cases hpush

/-- A pair of scripts is valid only if its run gets to the end. -/
theorem run_of_validatePair (hinitial : env.initial = initial) {n : Machine}
    (h : validatePair env unlocking locking m = .ok true n) :
    ∃ b, run env unlocking.length (unlocking ++ locking)
      (holding env.policy.maxStack initial.reverse [] locking) = .ok () b := by
  have hroom := room_of_validatePair hinitial h
  obtain ⟨a, b, hpush, hrun, -⟩ := validatePair_true h
  subst hinitial
  rw [pushInitial_of_le hroom] at hpush
  cases hpush
  exact ⟨b, hrun⟩

end

variable {unlocking locking : List Token} {pushed : List Bytes} {redeem : Bytes} {l : Literal}

/-- Pushes are valid for a payment to a script if they push a script with the right digest last and
everything has room. -/
theorem validatePair_scriptHash (hinitial : env.initial = [])
    (hroom : (pushed.length : Int) + 2 ≤ env.policy.maxStack)
    (hpushes : Pushes unlocking (pushed ++ [redeem]))
    (hsizes : ∀ item ∈ pushed ++ [redeem], item.length ≤ maxItemSize)
    (hlocking : scriptHash? locking = some l) (m : Machine) :
    ∃ n, validatePair env unlocking locking m = .ok (decide (Hash.hash160 redeem = l.data)) n := by
  obtain ⟨rfl, hdigest⟩ := eq_of_scriptHash hlocking
  have hall : (([] : List Bytes).length : Int) + (pushed ++ [redeem]).length ≤
      env.policy.maxStack := by
    rw [List.length_nil, List.length_append, List.length_singleton]
    omega
  have hbelow : (pushed.reverse.length : Int) + 2 ≤ env.policy.maxStack := by
    rwa [List.length_reverse]
  obtain ⟨log, hunlock⟩ := run_pushes hpushes hsizes hall unlocking.length (payToScriptHash l) []
    (payToScriptHash l)
  rw [Nat.sub_self, List.reverse_append, List.append_nil] at hunlock
  obtain ⟨log', hlock⟩ := run_scriptHash hdigest hbelow redeem log (payToScriptHash l)
  have hresult := validatePair_of_run (m := m) hinitial (by omega) (hunlock.trans hlock) rfl rfl rfl
  rwa [truth_encode_ofBool] at hresult

/-- Pushes are valid for a payment to a script only if everything has room and they push a script
with the right digest last. -/
theorem fits_of_validatePair_scriptHash (hinitial : env.initial = [])
    (hpushes : Pushes unlocking pushed) (hlocking : scriptHash? locking = some l) {n : Machine}
    (hvalid : validatePair env unlocking locking m = .ok true n) :
    (∀ item ∈ pushed, item.length ≤ maxItemSize) ∧
      (pushed.length : Int) + 1 ≤ env.policy.maxStack ∧
      ∃ below redeem, pushed = below ++ [redeem] ∧ Hash.hash160 redeem = l.data := by
  obtain ⟨rfl, hdigest⟩ := eq_of_scriptHash hlocking
  have hmax : (([] : List Bytes).length : Int) ≤ env.policy.maxStack :=
    room_of_validatePair hinitial hvalid
  obtain ⟨b, hrun⟩ := run_of_validatePair hinitial hvalid
  rw [List.reverse_nil] at hrun
  by_cases hfits : (∀ item ∈ pushed, item.length ≤ maxItemSize) ∧
      (([] : List Bytes).length : Int) + pushed.length ≤ env.policy.maxStack
  · obtain ⟨hsizes, hall⟩ := hfits
    obtain ⟨log, hunlock⟩ := run_pushes hpushes hsizes hall unlocking.length (payToScriptHash l) []
      (payToScriptHash l)
    rw [hunlock, Nat.sub_self, List.append_nil] at hrun
    rcases List.eq_nil_or_concat' pushed with rfl | ⟨below, redeem, rfl⟩
    · obtain ⟨reason, n', hempty⟩ := run_scriptHash_empty l 0 log (payToScriptHash l)
      rw [List.reverse_nil, hempty] at hrun
      cases hrun
    · rw [List.length_nil, List.length_append, List.length_singleton] at hall
      by_cases hroom : (below.length : Int) + 2 ≤ env.policy.maxStack
      · refine ⟨hsizes, ?_, below, redeem, rfl, ?_⟩
        · rw [List.length_append, List.length_singleton]
          omega
        · obtain ⟨n', hresult⟩ :=
            validatePair_scriptHash hinitial hroom hpushes hsizes hlocking m
          rw [hvalid] at hresult
          cases hdecide : decide (Hash.hash160 redeem = l.data) with
          | true => exact of_decide_eq_true hdecide
          | false =>
              rw [hdecide] at hresult
              cases hresult
      · -- The digest has no room above the pushes.
        have hlength : env.policy.maxStack = below.reverse.length + 1 := by
          rw [List.length_reverse]
          omega
        obtain ⟨reason, n', hfull⟩ :=
          run_scriptHash_full hlength redeem log (payToScriptHash l) l
        rw [List.reverse_append, List.reverse_singleton, List.singleton_append, hfull] at hrun
        cases hrun
  · obtain ⟨reason, n', hrefused⟩ := run_pushes_refused hpushes hmax hfits unlocking.length
      (payToScriptHash l) [] (payToScriptHash l)
    rw [hrefused] at hrun
    cases hrun

/-- No pushes are valid if an opcode follows that fails where it is executed. -/
theorem not_validatePair_of_reserved (hinitial : env.initial = []) {front back : List Token}
    (hfront : Pushes front pushed) {n : Machine} :
    validatePair env (front ++ .op (.reserved .reserved) :: back) locking m ≠ .ok true n := by
  intro hvalid
  have hmax : (([] : List Bytes).length : Int) ≤ env.policy.maxStack :=
    room_of_validatePair hinitial hvalid
  obtain ⟨b, hrun⟩ := run_of_validatePair hinitial hvalid
  rw [List.reverse_nil, List.append_assoc] at hrun
  by_cases hfits : (∀ item ∈ pushed, item.length ≤ maxItemSize) ∧
      (([] : List Bytes).length : Int) + pushed.length ≤ env.policy.maxStack
  · obtain ⟨log, hpushed⟩ := run_pushes hfront hfits.1 hfits.2 _ _ [] locking
    rw [hpushed, List.cons_append, run_cons_error (step_failsExecuted rfl rfl)] at hrun
    cases hrun
  · obtain ⟨reason, n', hrefused⟩ := run_pushes_refused hfront hmax hfits _ _ [] locking
    rw [hrefused] at hrun
    cases hrun

end Machine

end Script

end BitcoinSpend
