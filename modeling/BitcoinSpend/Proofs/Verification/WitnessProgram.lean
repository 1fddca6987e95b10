import BitcoinSpend.Proofs.Script.Machine.Asked
import BitcoinSpend.Proofs.Verification.ScriptHash

/-!
# Witness programs

A version-zero witness program commits to a key or to a script. Whether it is spent depends on the
witness alone, once the unlocking script is empty or may be left out. Read `Resolves` first, which
says what the witness has to be and what is then run; the main result is
`verifyInput_witnessProgram`.
-/

namespace BitcoinSpend

namespace Script

/-- The locking script of a version-zero witness program. -/
def programLocking (program : Bytes) : Bytes :=
  0x00 :: UInt8.ofNat program.length :: program

/-- The locking script of a payment to a key. -/
def keyHashLocking (keyHash : Bytes) : Bytes :=
  [0x76, 0xa9] ++ (0x14 :: keyHash) ++ [0x88, 0xac]

/-- The tokens of a witness program. -/
theorem disassemble_programLocking {program : Bytes} (hpos : 1 ≤ program.length)
    (hmax : program.length ≤ Instruction.maxDirect) :
    disassemble (programLocking program) = [.op (.stack (.constant .zero)), .push program] := by
  have hwell : Instruction.WellFormed [.op (.stack (.constant .zero)), .direct program] :=
    .cons _ _ (.op _ nofun) (.cons _ _ (.direct program hpos hmax) .nil)
  have htokens := Instruction.disassemble_flatMap_encode hwell
  rw [List.flatMap_cons, List.flatMap_singleton] at htokens
  exact htokens

/-- A program of twenty bytes commits to a key. -/
theorem witnessKeyHash?_push {program : Bytes} (hsize : program.length = 20) :
    witnessKeyHash? [.op (.stack (.constant .zero)), .push program] = some (.ofBytes program) := by
  have htext := Literal.hasSize_ofBytes program
  rw [hsize] at htext
  exact if_pos ⟨rfl, htext⟩

/-- A program of thirty-two bytes commits to a script. -/
theorem witnessScriptHash?_push {program : Bytes} (hsize : program.length = 32) :
    witnessScriptHash? [.op (.stack (.constant .zero)), .push program] =
      some (.ofBytes program) := by
  have htext := Literal.hasSize_ofBytes program
  rw [hsize] at htext
  exact if_pos ⟨rfl, htext⟩

namespace Machine

variable {env : Environment}

/-- What an outcome of a pair of scripts answers. -/
def answer (outcome : EStateM.Result MachineError Machine Bool) : Except MachineError Bool :=
  match outcome with
  | .ok b _ => .ok b
  | .error e _ => .error e

/-- In segwit, signatures of a payment to a key commit to all of it. -/
theorem assemble_payToKeyHash_segwit (hsegwit : env.segwit = true) {keyHash : Bytes}
    (hsize : keyHash.length = 20) (signature : Bytes) :
    assemble (committedTokens env [signature] (payToKeyHash (.push keyHash))) =
      .ok (keyHashLocking keyHash) := by
  have hfilter : (payToKeyHash (.push keyHash)).filter (· ≠ .op (.signature .codeSeparator)) =
      payToKeyHash (.push keyHash) := rfl
  rw [committedTokens, hfilter, hsegwit, if_pos rfl]
  exact assemble_payToKeyHash_push hsize

/-- Run on a signature and a key, a payment to a key answers what the check of the two does if the
key has the right digest, and false otherwise. -/
theorem answer_payToKeyHash (hsegwit : env.segwit = true) (hmax : 4 ≤ env.policy.maxStack)
    {keyHash signature key : Bytes} (hinitial : env.initial = [signature, key])
    (hsize : keyHash.length = 20) (m : Machine) :
    answer (validatePair env [] (payToKeyHash (.push keyHash)) m) =
      if Hash.hash160 key = keyHash then
        (checkSignature env signature key (keyHashLocking keyHash)).outcome
      else .ok false := by
  have hroom : (([signature, key] : List Bytes).length : Int) ≤ env.policy.maxStack := by
    simp only [List.length_cons, List.length_nil]
    omega
  have htwo : (([key, signature] : List Bytes).length : Int) + 1 ≤ env.policy.maxStack := by
    simp only [List.length_cons, List.length_nil]
    omega
  have hone : (([] : List Bytes).length : Int) + 1 ≤ env.policy.maxStack := by
    simp only [List.length_nil]
    omega
  have hassemble := assemble_payToKeyHash_segwit hsegwit hsize signature
  obtain ⟨log, hcompare⟩ := run_payToKeyHash_compare hsize hmax signature key []
    (payToKeyHash (.push keyHash))
  by_cases hdigest : Hash.hash160 key = keyHash
  · rw [if_pos hdigest]
    rw [← hdigest] at hcompare hassemble ⊢
    have hchecked := hcompare.trans (run_cons_ok (step_equalVerify htwo))
    cases houtcome : (checkSignature env signature key
        (keyHashLocking (Hash.hash160 key))).outcome with
    | ok b =>
        have hrun := hchecked.trans (run_cons_ok (step_checkSig hassemble houtcome hone))
        have hresult : ∃ n, validatePair env [] (payToKeyHash (.push (Hash.hash160 key))) m =
            .ok (Number.truth (Number.encode (Number.ofBool b))) n :=
          validatePair_of_run hinitial hroom hrun rfl rfl rfl
        obtain ⟨n, hresult⟩ := hresult
        rw [hresult, truth_encode_ofBool]
        rfl
    | error e =>
        obtain ⟨n, hraised⟩ := step_checkSig_raised hassemble houtcome
        have hresult : validatePair env [] (payToKeyHash (.push (Hash.hash160 key))) m =
            .error e n :=
          validatePair_of_run_raised hinitial hroom (hchecked.trans (run_cons_error hraised))
        rw [hresult]
        rfl
  · have hfails := hcompare.trans
      (run_cons_error (step_equalVerify_of_ne hdigest htwo))
    have hresult : ∃ n, validatePair env [] (payToKeyHash (.push keyHash)) m = .ok false n :=
      validatePair_of_run_failed hinitial hroom hfails
    obtain ⟨n, hresult⟩ := hresult
    rw [if_neg hdigest, hresult]
    rfl

end Machine

end Script

namespace Verification

open Script

/-- The environment in which a witness program is run: all messages are those of segwit. -/
def segwitEnvironment (policy : Policy) (tx : Transaction) (index amount : Int)
    (initial : List Bytes) : Environment where
  messages? := some fun code hashType ↦ Sighash.segwit tx index amount code hashType.toNat
  initial := initial
  segwit := true
  policy := policy

/-- The witnesses for a program, with the answer to which they lead. For a key, a witness is a
signature and a key with the digest, and the answer is that of the check of the two for the payment
to the key. For a script, it is the script with the digest behind some items, and the answer is that
of the run of the script on the items. -/
inductive Resolves (env : List Bytes → Environment) (program : Bytes) :
    Witness → Except MachineError Bool → Prop where
  | key (signature key : Bytes) : program.length = 20 → Hash.hash160 key = program →
      Resolves env program [signature, key]
        (Machine.checkSignature (env [signature, key]) signature key
          (keyHashLocking program)).outcome
  | script (items : List Bytes) (script : Bytes) : program.length = 32 →
      Hash.sha256 script = program →
      Resolves env program (items ++ [script])
        (Machine.answer (Machine.validatePair (env items) [] (disassemble script) {}))

namespace Spend

variable {s : Spend} {witness : Witness} {unlocking locking : List Token} {initial : List Bytes}
  {segwit : Bool} {program : Bytes} {journal : Journal}

/-! ## Attempts -/

/-- What a run decides is what its pair of scripts answers. -/
theorem verdict_runPair (journal : Journal) :
    verdict (s.runPair segwit initial unlocking locking journal) =
      (Machine.answer (Machine.validatePair (s.environment segwit initial) unlocking locking
        {})).mapError .machine := by
  cases hresult : Machine.validatePair (s.environment segwit initial) unlocking locking {} with
  | ok b n =>
      rw [runPair_ok journal hresult]
      rfl
  | error e n =>
      rw [runPair_error journal hresult]
      rfl

/-- All errors of a single run are those of a machine. -/
theorem SingleRun.exists_answer {c : VerifyM Bool} (h : SingleRun s c) (journal : Journal) :
    ∃ a : Except MachineError Bool, verdict (c journal) = a.mapError .machine := by
  cases h with
  | refused => exact ⟨.ok false, rfl⟩
  | pair segwit initial unlocking locking => exact ⟨_, verdict_runPair journal⟩

/-- An attempt at what is no payment to a script is its run. -/
theorem attempt_of_not_scriptHash (hlocking : scriptHash? locking = none) :
    s.attempt witness unlocking locking = s.runResolved witness unlocking locking := by
  have hsame (b : Bool) : (if b then Pure.pure true else Pure.pure false : VerifyM Bool) =
      Pure.pure b := by
    cases b <;> rfl
  rw [attempt, hlocking]
  simp only [Option.isSome_none, Bool.false_eq_true, if_false, hsame, bind_pure]

/-- A witness program is run without an unlocking script, or it is refused. -/
theorem attempts_program (hsize : program.length = 20 ∨ program.length = 32) :
    s.attempts witness unlocking [.op (.stack (.constant .zero)), .push program] =
      if unlocking = [] ∨ s.policy.permissiveRetry = true then
        s.runResolved witness [] [.op (.stack (.constant .zero)), .push program]
      else pure false := by
  have hlocking : scriptHash? [.op (.stack (.constant .zero)), .push program] = none := rfl
  have hprogram : witnessKeyHash? [.op (.stack (.constant .zero)), .push program] = none →
      witnessScriptHash? [.op (.stack (.constant .zero)), .push program] ≠ none := by
    intro hnone
    rcases hsize with hsize | hsize
    · rw [witnessKeyHash?_push hsize] at hnone
      cases hnone
    · rw [witnessScriptHash?_push hsize]
      exact Option.some_ne_none _
  simp only [attempts, attempt_of_not_scriptHash hlocking]
  by_cases hempty : unlocking = []
  · subst hempty
    simp
  · rw [runResolved_refused hprogram hempty]
    cases hretry : s.policy.permissiveRetry <;> simp [hempty]

/-! ## Runs -/

/-- A program that commits to a key is run as a payment to it, on a witness of two items. -/
theorem runResolved_key (witness : Witness) (hsize : program.length = 20) :
    s.runResolved witness [] [.op (.stack (.constant .zero)), .push program] =
      if witness.length = 2 then s.runPair true witness [] (payToKeyHash (.push program))
      else pure false := by
  rw [runResolved, witnessKeyHash?_push hsize]
  by_cases hlength : witness.length = 2
  · simp [hlength, Token.push]
  · simp [hlength]

/-- A program that commits to a script has no use for an empty witness. -/
theorem runResolved_script_nil (hsize : program.length = 32) :
    s.runResolved [] [] [.op (.stack (.constant .zero)), .push program] = pure false := by
  have hscript := witnessScriptHash?_push hsize
  rw [runResolved, hscript, not_witnessKeyHash hscript]
  rfl

/-- A program that commits to a script is run as the last item of the witness, on the others. -/
theorem runResolved_script (items : List Bytes) (script : Bytes) (hsize : program.length = 32) :
    s.runResolved (items ++ [script]) [] [.op (.stack (.constant .zero)), .push program] =
      if Hash.sha256 script = program then s.runPair true items [] (disassemble script)
      else pure false := by
  have hscript := witnessScriptHash?_push hsize
  have hdata : (Literal.ofBytes program).data = program := rfl
  rw [runResolved, hscript, not_witnessKeyHash hscript]
  by_cases hdigest : Hash.sha256 script = program
  · simp [hdigest, hdata]
  · simp [hdigest, hdata]

/-- The run of a program that commits to a key answers what the check of the signature and the key
does if the key has the right digest. -/
theorem verdict_runResolved_key (hmax : 4 ≤ s.policy.maxStack) (hsize : program.length = 20)
    (signature key : Bytes) (journal : Journal) :
    verdict (s.runResolved [signature, key] [] [.op (.stack (.constant .zero)), .push program]
        journal) =
      (if Hash.hash160 key = program then
        (Machine.checkSignature (s.environment true [signature, key]) signature key
          (keyHashLocking program)).outcome
      else .ok false).mapError .machine := by
  have hinitial : (s.environment true [signature, key]).initial = [signature, key] := rfl
  have hlength : [signature, key].length = 2 := rfl
  have hanswer := Machine.answer_payToKeyHash rfl hmax hinitial hsize {}
  rw [runResolved_key [signature, key] hsize, if_pos hlength, verdict_runPair, hanswer]

/-- The run of a program decides the answer to which the witness leads. -/
theorem verdict_of_resolves (hmax : 4 ≤ s.policy.maxStack) {a : Except MachineError Bool}
    (h : Resolves (s.environment true) program witness a) (journal : Journal) :
    verdict (s.runResolved witness [] [.op (.stack (.constant .zero)), .push program] journal) =
      a.mapError .machine := by
  cases h with
  | key signature key hsize hdigest =>
      rw [verdict_runResolved_key hmax hsize, if_pos hdigest]
  | script items script hsize hdigest =>
      rw [runResolved_script items script hsize, if_pos hdigest, verdict_runPair]

/-- The run of a program refuses every other witness. -/
theorem verdict_of_not_resolves (hmax : 4 ≤ s.policy.maxStack)
    (hsize : program.length = 20 ∨ program.length = 32)
    (h : ∀ a, ¬Resolves (s.environment true) program witness a) (journal : Journal) :
    verdict (s.runResolved witness [] [.op (.stack (.constant .zero)), .push program] journal) =
      .ok false := by
  rcases hsize with hsize | hsize
  · by_cases hlength : witness.length = 2
    · obtain ⟨signature, key, rfl⟩ := List.length_eq_two.mp hlength
      have hdigest : Hash.hash160 key ≠ program := fun hdigest ↦
        h _ (.key signature key hsize hdigest)
      rw [verdict_runResolved_key hmax hsize, if_neg hdigest]
      rfl
    · rw [runResolved_key witness hsize, if_neg hlength]
      rfl
  · rcases List.eq_nil_or_concat' witness with rfl | ⟨items, script, rfl⟩
    · rw [runResolved_script_nil hsize]
      rfl
    · have hdigest : Hash.sha256 script ≠ program := fun hdigest ↦
        h _ (.script items script hsize hdigest)
      rw [runResolved_script items script hsize, if_neg hdigest]
      rfl

/-- The run of a program decides something else than false if and only if the witness leads to that
answer. -/
theorem verdict_runResolved_iff (hmax : 4 ≤ s.policy.maxStack)
    (hsize : program.length = 20 ∨ program.length = 32) {a : Except MachineError Bool}
    (ha : a ≠ .ok false) (journal : Journal) :
    verdict (s.runResolved witness [] [.op (.stack (.constant .zero)), .push program] journal) =
      a.mapError .machine ↔ Resolves (s.environment true) program witness a := by
  have hinj {a b : Except MachineError Bool}
      (h : a.mapError SpendError.machine = b.mapError .machine) : a = b := by
    cases a <;> cases b <;> cases h <;> rfl
  refine ⟨fun hverdict ↦ ?_, fun hresolves ↦ verdict_of_resolves hmax hresolves journal⟩
  by_cases hresolves : ∃ b, Resolves (s.environment true) program witness b
  · obtain ⟨b, hb⟩ := hresolves
    rw [verdict_of_resolves hmax hb] at hverdict
    exact hinj hverdict ▸ hb
  · rw [verdict_of_not_resolves hmax hsize (not_exists.mp hresolves)] at hverdict
    have hfalse : a = .ok false := hinj hverdict.symm
    exact absurd hfalse ha

/-! ## Messages -/

/-- The messages of the run that is entered for a pair of scripts are those of the spend. -/
theorem exists_entry (s : Spend) (segwit : Bool) (initial : List Bytes)
    (unlocking locking : List Token) (journal : Journal) :
    ∃ r, (journalOf (s.runPair segwit initial unlocking locking journal)).runs =
        r :: journal.runs ∧ r.segwit = segwit ∧
      ∀ c ∈ r.machine.calls, s.messages segwit c.code c.hashType = .ok c.digest := by
  have hasks := Machine.asksFor_validatePair (s.environment segwit initial) unlocking locking {}
  -- No message is remembered at the start, so all of them are answers of the environment.
  have hanswered {codes : Bytes → Prop} {later : List Call}
      (h : Machine.AskedSince (s.environment segwit initial) codes [] later) :
      ∀ c ∈ later, s.messages segwit c.code c.hashType = .ok c.digest := by
    intro c hc
    rcases h.of_mem hc with hbefore | ⟨-, messages, hmessages, hreply⟩
    · exact absurd hbefore List.not_mem_nil
    · cases hmessages
      exact hreply
  cases hresult : Machine.validatePair (s.environment segwit initial) unlocking locking {} with
  | ok b n =>
      rw [hresult] at hasks
      rw [runPair_ok journal hresult]
      cases hasks with
      | ok _ _ hasked =>
          exact ⟨⟨segwit, unlocking, locking, n, some b⟩, rfl, rfl, hanswered hasked⟩
  | error e n =>
      rw [hresult] at hasks
      rw [runPair_error journal hresult]
      cases hasks with
      | error _ _ hasked _ =>
          exact ⟨⟨segwit, unlocking, locking, n, none⟩, rfl, rfl, hanswered hasked⟩

/-- A program is refused, or run once in segwit. -/
theorem runResolved_segwit (s : Spend) (witness : Witness)
    (hsize : program.length = 20 ∨ program.length = 32) :
    s.runResolved witness [] [.op (.stack (.constant .zero)), .push program] = pure false ∨
      ∃ initial locking,
        s.runResolved witness [] [.op (.stack (.constant .zero)), .push program] =
          s.runPair true initial [] locking := by
  rcases hsize with hsize | hsize
  · rw [runResolved_key witness hsize]
    split
    · exact .inr ⟨witness, _, rfl⟩
    · exact .inl rfl
  · rcases List.eq_nil_or_concat' witness with rfl | ⟨items, script, rfl⟩
    · exact .inl (runResolved_script_nil hsize)
    · rw [runResolved_script items script hsize]
      split
      · exact .inr ⟨items, _, rfl⟩
      · exact .inl rfl

end Spend

/-! ## Verdicts on inputs -/

variable {tx : Transaction} {index : Int} {previous : TxOutput} {input : TxInput}
  {witness : Witness}

/-- Verifying an input that spends a witness program runs the program, or refuses it if it has an
unlocking script that may not be left out. -/
theorem verifyInput_program {disassembled : Bool} {bs : Bytes}
    (htx : Transaction.decode disassembled bs = .ok tx) (hcoinbase : tx.isCoinbase = false)
    (hinput : elementAt? tx.inputs index = some input)
    (hwitness : elementAt? tx.witness index = some witness) {program : Bytes}
    (hsize : program.length = 20 ∨ program.length = 32)
    (hlocking : previous.locking = programLocking program) (policy : Policy) (journal : Journal) :
    verifyInput policy tx index previous journal =
      if input.unlocking = [] ∨ policy.permissiveRetry = true then
        (⟨policy, tx, index, previous.amount⟩ : Spend).runResolved witness []
          [.op (.stack (.constant .zero)), .push program] journal
      else .ok false journal := by
  obtain ⟨-, -, hinStep⟩ := Transaction.encodable_of_decode htx
  have hstep : input.InStep := hinStep _ (mem_of_elementAt? hinput)
  have hmax : program.length ≤ Instruction.maxDirect := by
    unfold Instruction.maxDirect
    omega
  have htokens : previous.tokens = [.op (.stack (.constant .zero)), .push program] := by
    rw [TxOutput.tokens, hlocking]
    exact disassemble_programLocking (by omega) hmax
  rw [verifyInput_of_input hcoinbase hinput hstep hwitness, htokens, Spend.attempts_program hsize]
  simp only [disassemble_eq_nil_iff]
  split <;> rfl

/-- A witness program is spent if and only if the unlocking script is empty or may be left out and
the witness leads to the answer true; verifying the input is an error if and only if the witness
leads to that error. All runs are in segwit, and no message is asked for that is not one of segwit.
-/
theorem verifyInput_witnessProgram {disassembled : Bool} {bs : Bytes}
    (htx : Transaction.decode disassembled bs = .ok tx) (hcoinbase : tx.isCoinbase = false)
    (hinput : elementAt? tx.inputs index = some input)
    (hwitness : elementAt? tx.witness index = some witness) {program : Bytes}
    (hsize : program.length = 20 ∨ program.length = 32)
    (hlocking : previous.locking = programLocking program) {policy : Policy}
    (hmax : 4 ≤ policy.maxStack) (journal : Journal) :
    (verdict (verifyInput policy tx index previous journal) = .ok true ↔
      (input.unlocking = [] ∨ policy.permissiveRetry = true) ∧
        Resolves (segwitEnvironment policy tx index previous.amount) program witness (.ok true)) ∧
    (∀ e, verdict (verifyInput policy tx index previous journal) = .error e ↔
      ∃ cause, e = .machine cause ∧
        (input.unlocking = [] ∨ policy.permissiveRetry = true) ∧
        Resolves (segwitEnvironment policy tx index previous.amount) program witness
          (.error cause)) ∧
    ∃ runs, (journalOf (verifyInput policy tx index previous journal)).runs =
        runs ++ journal.runs ∧
      ∀ r ∈ runs, r.segwit = true ∧ ∀ c ∈ r.machine.calls,
        Sighash.segwit tx index previous.amount c.code c.hashType.toNat = .ok c.digest := by
  rw [verifyInput_program htx hcoinbase hinput hwitness hsize hlocking]
  by_cases hrun : input.unlocking = [] ∨ policy.permissiveRetry = true
  · rw [if_pos hrun]
    have hverdict (a : Except MachineError Bool) (ha : a ≠ .ok false) :
        verdict ((⟨policy, tx, index, previous.amount⟩ : Spend).runResolved witness []
          [.op (.stack (.constant .zero)), .push program] journal) = a.mapError .machine ↔
            Resolves (segwitEnvironment policy tx index previous.amount) program witness a :=
      Spend.verdict_runResolved_iff hmax hsize ha journal
    refine ⟨(hverdict (.ok true) nofun).trans (and_iff_right hrun).symm,
      fun e ↦ ⟨fun he ↦ ?_, ?_⟩, ?_⟩
    · obtain ⟨a, ha⟩ := (Spend.runResolved_singleRun ..).exists_answer journal
      cases a with
      | ok b =>
          rw [ha] at he
          cases he
      | error cause =>
          rw [ha] at he
          cases he
          exact ⟨cause, rfl, hrun, (hverdict (.error cause) nofun).mp ha⟩
    · rintro ⟨cause, rfl, -, hresolves⟩
      exact (hverdict (.error cause) nofun).mpr hresolves
    · rcases Spend.runResolved_segwit ⟨policy, tx, index, previous.amount⟩ witness hsize with
        hrefused | ⟨initial, locking, hentered⟩
      · rw [hrefused]
        exact ⟨[], rfl, nofun⟩
      · obtain ⟨r, hruns, hsegwit, hcalls⟩ := Spend.exists_entry
          ⟨policy, tx, index, previous.amount⟩ true initial [] locking journal
        rw [hentered]
        refine ⟨[r], hruns, fun other hother ↦ ?_⟩
        obtain rfl := List.mem_singleton.mp hother
        exact ⟨hsegwit, hcalls⟩
  · rw [if_neg hrun]
    refine ⟨⟨nofun, fun h ↦ absurd h.1 hrun⟩, fun e ↦ ⟨nofun, ?_⟩, [], rfl, nofun⟩
    rintro ⟨cause, -, h, -⟩
    exact absurd h hrun

/-- A transaction whose only input has the script `OP_1` as its witness. -/
def witnessTransaction : Transaction where
  inputs := [.ofFields (List.replicate 32 0x11) 0 [] 0xffffffff true]
  outputs := [⟨0, []⟩]
  witness := [[[0x51]]]
  lockTime := 0
  version := 2
  segwit := true

/-- A payment to the witness script `OP_1`. -/
def witnessOutput : TxOutput :=
  ⟨0, programLocking (Hash.sha256 [0x51])⟩

/-- The transaction is read from its wire form. -/
theorem decode_witnessTransaction :
    ∃ bs, Transaction.decode true bs = .ok witnessTransaction := by
  have hencodable : witnessTransaction.Encodable :=
    encodable_single ⟨by decide, by decide, by decide, by decide⟩ ⟨by decide, by decide⟩ true
  obtain ⟨bs, -, hdecode⟩ := Transaction.decode_encode true hencodable (fun _ ↦ rfl) (.inl rfl)
  exact ⟨bs, hdecode⟩

/-- The witness leads to the answer true. -/
theorem resolves_witnessTransaction :
    Resolves (segwitEnvironment {} witnessTransaction 0 0) (Hash.sha256 [0x51]) [[0x51]]
      (.ok true) := by
  have hscript : disassemble [0x51] = [.op (.stack (.constant (.small 0)))] :=
    Instruction.disassemble_opcode (o := .stack (.constant (.small 0))) nofun
  have hanswer : Machine.answer (Machine.validatePair
      (segwitEnvironment {} witnessTransaction 0 0 []) [] (disassemble [0x51]) {}) = .ok true := by
    rw [hscript]
    rfl
  rw [← hanswer]
  exact .script [] [0x51] (Hash.length_sha256 [0x51]) rfl

/-- The transaction spends the output. -/
theorem verifyInput_witnessProgram_script :
    (∃ bs, Transaction.decode true bs = .ok witnessTransaction) ∧
      witnessTransaction.isCoinbase = false ∧
      witnessOutput.locking = programLocking (Hash.sha256 [0x51]) ∧
      (Hash.sha256 [0x51]).length = 32 ∧
      verdict (verifyInput {} witnessTransaction 0 witnessOutput {}) = .ok true := by
  obtain ⟨bs, hdecode⟩ := decode_witnessTransaction
  have hsize := Hash.length_sha256 [0x51]
  have hlocking : witnessOutput.locking = programLocking (Hash.sha256 [0x51]) := rfl
  have hmax : 4 ≤ ({} : Policy).maxStack := by decide
  refine ⟨⟨bs, hdecode⟩, rfl, hlocking, hsize, ?_⟩
  exact (verifyInput_witnessProgram hdecode rfl rfl rfl (.inr hsize) hlocking hmax {}).1.mpr
    ⟨.inl rfl, resolves_witnessTransaction⟩

end Verification

end BitcoinSpend
