import BitcoinSpend.Proofs.Script.Machine.Asked

/-!
# The script that messages are asked for

Wherever a run executes a signature opcode, it asks for messages of what follows the last executed
separator of the locking script, without the separators that are still in it and, outside segwit,
without the direct pushes of the signatures that are checked. Nothing else is left out. Read
`ScriptCodeAt` first, which says this about bytes and does not look at what the machine remembers.
The main results are `execute_segwitCode`, for the run of a segwit script, and
`validatePair_legacyCode`, for pairs of scripts outside segwit.
-/

namespace BitcoinSpend.Script.Machine

variable {env : Environment} {m n : Machine} {place : Nat} {t : Token}

/-- The bytes for which a run may ask for messages at a place where it executes a signature opcode:
what follows the last separator of the locking script that it has executed, without the instructions
that are dropped for the signatures which the opcode takes off the stack. -/
def ScriptCodeAt (env : Environment) (dropped : List Bytes → List Bytes) (unlocking : List Token)
    (locking : Bytes) (m : Machine) (place : Nat) (code : Bytes) : Prop :=
  ∃ s signatures after n,
    Executes env unlocking.length (unlocking ++ disassemble locking) m place (.op (.signature s)) n ∧
      Takes s signatures n.memory.main.items ∧ Since env unlocking locking m place after ∧
      code = withoutWritten (dropped signatures) after

/-- The script that signatures commit to at a place is written in the bytes that a run may ask for
there, if these are what the tokens behind a separator are assembled to. -/
theorem scriptCodeAt_of_commits {dropped : List Bytes → List Bytes}
    (hdropped : ∀ signatures script, assemble (committedTokens env signatures (disassemble script)) =
      .ok (withoutWritten (dropped signatures) script))
    {unlocking : List Token} {locking code : Bytes} (hcode : m.code = disassemble locking)
    (htoken : (unlocking ++ disassemble locking)[place]? = some t)
    (harrives : runTo env unlocking.length (unlocking ++ disassemble locking) place m = .ok false n)
    (hcommits : Commits env n t code) :
    ScriptCodeAt env dropped unlocking locking m place code := by
  obtain ⟨after, hsince, hafter⟩ := exists_since hcode harrives
  cases hcommits with
  | intro s signatures _ hexecuting htakes hassemble =>
      rw [hafter, hdropped] at hassemble
      exact ⟨s, signatures, after, n, ⟨htoken, harrives, hexecuting⟩, htakes, hsince,
        (Except.ok.inj hassemble).symm⟩

/-- Each message that the run of a segwit script asks for is one of the bytes that follow the last
executed separator, without the separators among them, whatever signatures are checked. -/
theorem execute_segwitCode (hsegwit : env.segwit = true) (script : Bytes) (m : Machine) :
    (∀ place t n,
      Executes env 0 (disassemble script) { m with code := disassemble script } place t n →
      AsksFor env (ScriptCodeAt env (fun _ ↦ [[0xab]]) [] script
          { m with code := disassemble script } place) Halt.refusal? n
        (runTo env 0 (disassemble script) (place + 1) { m with code := disassemble script })) ∧
    AsksFor env (fun code ↦ ∃ place, ScriptCodeAt env (fun _ ↦ [[0xab]]) [] script
        { m with code := disassemble script } place code) MachineError.refusal? m
      (execute env (disassemble script) 0 m) := by
  have hdropped := assemble_committedTokens_segwit hsegwit
  constructor
  · intro place t n hexecutes
    exact (asksFor_succ hexecutes).mono fun code hcommits ↦
      scriptCodeAt_of_commits hdropped rfl hexecutes.token hexecutes.arrives hcommits
  · have hwhole : suffixFrom (disassemble script) 0 = disassemble script :=
      suffixFrom_length [] (disassemble script)
    have hexecute := asksFor_execute env (disassemble script) 0 m
    rw [hwhole] at hexecute
    refine hexecute.mono ?_
    rintro code ⟨place, t, n, htoken, harrives, hcommits⟩
    exact ⟨place, scriptCodeAt_of_commits hdropped rfl htoken harrives hcommits⟩

/-- Where every message is zero, a check of a signature of zero under the generator succeeds, and
remembers the message that it has asked for. -/
theorem run_checkSig_generatorKey (hmessages : env.messages? = zeroEnvironment.messages?)
    (hpolicy : env.policy = {}) {encoded : Bytes}
    (hdecoded : Signature.decode true encoded = .ok zeroSignature) (hashType : UInt8)
    {code : List Token} {bytes : Bytes}
    (hassemble : assemble (committedTokens env [encoded ++ [hashType]] code) = .ok bytes)
    (log rest : List Token) :
    run env 0 (.op (.signature .checkSig) :: rest)
        (holding 1000 [generatorKey.uncompressed, encoded ++ [hashType]] log code) =
      run env 0 rest { holding 1000 [[0x01]] (.op (.signature .checkSig) :: log) code with
        calls := [⟨bytes, hashType, List.replicate 32 0⟩] } := by
  have hmax : env.policy.maxStack = 1000 := by rw [hpolicy]
  have hchecked := checkSignature_generatorKey hmessages hpolicy hdecoded hashType bytes
  have hroom : (([] : List Bytes).length : Int) + 1 ≤ env.policy.maxStack := by
    rw [hmax]
    decide
  have houtcome := congrArg SignatureCheck.outcome hchecked
  rw [← hmax, run_cons_ok (step_checkSig hassemble houtcome hroom), hchecked]
  rfl

/-- An environment of segwit in which every message is zero. -/
def segwitZero : Environment :=
  { zeroEnvironment with segwit := true }

/-- A machine that holds a signature of zero and, on top, the generator. -/
def generatorHolding : Machine :=
  holding 1000 [generatorKey.uncompressed, zeroEncoded ++ [0x01]] [] []

/-- A check of a signature and a separator behind it. -/
def checkThenSeparator : List Instruction :=
  [.op (.signature .checkSig), .separator]

/-- The two are the instructions of their bytes. -/
theorem wellFormed_checkThenSeparator : Instruction.WellFormed checkThenSeparator :=
  .cons _ _ (.op _ nofun) (.cons _ _ (.op _ nofun) .nil)

/-- The check asks for a message of the check alone. -/
theorem execute_checkThenSeparator :
    ∃ n, execute segwitZero (disassemble [0xac, 0xab]) 0 generatorHolding = .ok () n ∧
      n.calls = [⟨[0xac], 0x01, List.replicate 32 0⟩] := by
  have hscript : disassemble [0xac, 0xab] =
      [.op (.signature .checkSig), .op (.signature .codeSeparator)] :=
    Instruction.disassemble_flatMap_encode wellFormed_checkThenSeparator
  have hmessages : segwitZero.messages? = zeroEnvironment.messages? := rfl
  have hassemble : assemble (committedTokens segwitZero [zeroEncoded ++ [0x01]]
      [.op (.signature .checkSig), .op (.signature .codeSeparator)]) = .ok [0xac] := rfl
  have hrun := run_checkSig_generatorKey hmessages rfl decode_zeroEncoded 0x01 hassemble []
    [.op (.signature .codeSeparator)]
  rw [← List.nil_append (disassemble _), hscript]
  exact ⟨_, execute_of_run hrun, rfl⟩

/-- The message that is asked for is one of the check, without the separator behind it. -/
theorem execute_segwitCode_checkThenSeparator :
    segwitZero.segwit = true ∧
      ∃ n, execute segwitZero (disassemble [0xac, 0xab]) 0 generatorHolding = .ok () n ∧
        n.calls ≠ [] ∧
        ∀ c ∈ n.calls, ∃ place, ScriptCodeAt segwitZero (fun _ ↦ [[0xab]]) [] [0xac, 0xab]
          { generatorHolding with code := disassemble [0xac, 0xab] } place c.code := by
  obtain ⟨n, hexecute, hcalls⟩ := execute_checkThenSeparator
  have hasks := (@execute_segwitCode segwitZero rfl [0xac, 0xab] generatorHolding).2
  rw [hexecute] at hasks
  refine ⟨rfl, n, hexecute, hcalls ▸ List.cons_ne_nil _ _, fun c hc ↦ ?_⟩
  rcases hasks.of_mem hc with hbefore | ⟨hcode, -⟩
  · cases hbefore
  · exact hcode

/-- No message of the whole script is asked for, although no separator has been executed: the
separator that is still in the script is left out. -/
theorem not_segwitCode_unchanged :
    ¬AsksFor segwitZero (fun code ↦ ∃ place, ScriptCodeAt segwitZero (fun _ ↦ []) [] [0xac, 0xab]
        { generatorHolding with code := disassemble [0xac, 0xab] } place code)
      MachineError.refusal? generatorHolding
      (execute segwitZero (disassemble [0xac, 0xab]) 0 generatorHolding) := by
  intro hasks
  obtain ⟨n, hexecute, hcalls⟩ := execute_checkThenSeparator
  rw [hexecute] at hasks
  rcases hasks.of_mem (hcalls ▸ List.mem_cons_self) with hbefore | ⟨⟨place, hcode⟩, -⟩
  · cases hbefore
  · obtain ⟨s, signatures, after, -, -, -, hsince, hcheck⟩ := hcode
    rw [withoutWritten_of_forall fun _ _ ↦ List.not_mem_nil] at hcheck
    cases hsince with
    | whole => cases hcheck
    | behind front back i hparse =>
        -- The separator is the last instruction, so nothing would follow it.
        have hsplit : checkThenSeparator = front ++ .separator :: back :=
          (Instruction.parse_flatMap_encode wellFormed_checkThenSeparator).symm.trans hparse
        rcases front with _ | ⟨i, _ | ⟨j, front⟩⟩
        · simp [checkThenSeparator, Instruction.separator] at hsplit
        · cases (List.cons.inj (List.cons.inj hsplit).2).2
          cases hcheck
        · simp [checkThenSeparator] at hsplit

/-- Each message that a pair of scripts asks for outside segwit is one of the bytes of the locking
script that follow its last executed separator, without the separators among them and without the
direct pushes of the signatures that are checked. -/
theorem validatePair_legacyCode (hsegwit : env.segwit = false) (unlocking locking : Bytes)
    (m : Machine) :
    (∀ place t n,
      Executes env (disassemble unlocking).length (disassemble unlocking ++ disassemble locking)
        (holding env.policy.maxStack env.initial.reverse [] (disassemble locking)) place t n →
      AsksFor env (ScriptCodeAt env (fun signatures ↦ [0xab] :: directPushes signatures)
          (disassemble unlocking) locking
          (holding env.policy.maxStack env.initial.reverse [] (disassemble locking)) place)
        Halt.refusal? n
        (runTo env (disassemble unlocking).length (disassemble unlocking ++ disassemble locking)
          (place + 1)
          (holding env.policy.maxStack env.initial.reverse [] (disassemble locking)))) ∧
    AsksFor env (fun code ↦ ∃ place,
        ScriptCodeAt env (fun signatures ↦ [0xab] :: directPushes signatures)
          (disassemble unlocking) locking
          (holding env.policy.maxStack env.initial.reverse [] (disassemble locking)) place code)
      MachineError.refusal? (start env.policy.maxStack)
      (validatePair env (disassemble unlocking) (disassemble locking) m) := by
  have hdropped := assemble_committedTokens_legacy hsegwit
  constructor
  · intro place t n hexecutes
    exact (asksFor_succ hexecutes).mono fun code hcommits ↦
      scriptCodeAt_of_commits hdropped rfl hexecutes.token hexecutes.arrives hcommits
  · refine (asksFor_validatePair env (disassemble unlocking) (disassemble locking) m).mono ?_
    rintro code ⟨place, t, n, htoken, harrives, hcommits⟩
    exact ⟨place, scriptCodeAt_of_commits hdropped rfl htoken harrives hcommits⟩

/-- The form in which a signature of zero has 76 bytes, its hash type included: what is behind a
signature does not matter to the lax rules. -/
def paddedSignature : Bytes :=
  (zeroEncoded ++ List.replicate 5 0) ++ [0x01]

/-- A check of a signature, and behind it a push of 76 bytes in a branch that is not taken. -/
def checkThenPush : List Instruction :=
  [.op (.signature .checkSig), .op (.stack (.constant .zero)), .op (.branch .whenTrue),
    .sized .one paddedSignature, .op (.branch .close)]

/-- The bytes of these instructions. -/
def checkThenPushScript : Bytes :=
  checkThenPush.flatMap Instruction.encode

/-- An environment with the signature and the generator as initial items. -/
def paddedZero : Environment :=
  { zeroEnvironment with initial := [paddedSignature, generatorKey.uncompressed] }

/-- The instructions are those of their bytes. -/
theorem wellFormed_checkThenPush : Instruction.WellFormed checkThenPush := by
  have hsize : paddedSignature.length < Bytes.capacity LengthField.one.width := by decide +kernel
  exact .cons _ _ (.op _ nofun) (.cons _ _ (.op _ nofun) (.cons _ _ (.op _ nofun)
    (.cons _ _ (.sized _ _ hsize) (.cons _ _ (.op _ nofun) .nil))))

/-- The tokens of these instructions. -/
theorem disassemble_checkThenPushScript :
    disassemble checkThenPushScript =
      [.op (.signature .checkSig), .op (.stack (.constant .zero)), .op (.branch .whenTrue),
        .op (.pushData .one), .push paddedSignature, .op (.branch .close)] :=
  Instruction.disassemble_flatMap_encode wellFormed_checkThenPush

/-- Only the first of the tokens is a signature opcode. -/
theorem eq_of_getElem_checkThenPush {s : SignatureOp}
    (h : (disassemble [] ++ disassemble checkThenPushScript)[place]? = some (.op (.signature s))) :
    place = 0 ∧ s = .checkSig := by
  have hempty : disassemble [] = [] := disassemble_eq_nil_iff.mpr rfl
  rw [disassemble_checkThenPushScript, hempty, List.nil_append] at h
  rcases place with _ | _ | _ | _ | _ | _ | place <;> cases h
  exact ⟨rfl, rfl⟩

/-- The check asks for a message of all of the script, the push of the signature included, and the
pair of scripts is valid. -/
theorem validatePair_checkThenPush :
    ∃ n, validatePair paddedZero (disassemble []) (disassemble checkThenPushScript) {} =
        .ok true n ∧
      n.calls = [⟨checkThenPushScript, 0x01, List.replicate 32 0⟩] := by
  have hempty : disassemble [] = [] := disassemble_eq_nil_iff.mpr rfl
  have hdecoded : Signature.decode true (zeroEncoded ++ List.replicate 5 0) = .ok zeroSignature := by
    decide +kernel
  have hdropped : directPushes [paddedSignature] = [] := by decide +kernel
  have hassemble : assemble (committedTokens paddedZero [paddedSignature]
      (disassemble checkThenPushScript)) = .ok checkThenPushScript := by
    rw [assemble_committedTokens_legacy rfl, hdropped, withoutWritten_of_forall]
    intro i hi
    have hmem : i ∈ checkThenPush :=
      Instruction.parse_flatMap_encode wellFormed_checkThenPush ▸ hi
    simp only [checkThenPush, List.mem_cons, List.not_mem_nil, or_false] at hmem
    rcases hmem with rfl | rfl | rfl | rfl | rfl <;> decide +kernel
  have hrun : ∃ n n', run paddedZero 0 (disassemble checkThenPushScript)
      { start 1000 with
        memory.main.items := paddedZero.initial.reverse
        code := disassemble checkThenPushScript } = .ok () n ∧
      validateStack n = .ok true n' ∧
      n'.calls = [⟨checkThenPushScript, 0x01, List.replicate 32 0⟩] := by
    rw [disassemble_checkThenPushScript] at hassemble ⊢
    exact ⟨_, _, run_checkSig_generatorKey rfl rfl hdecoded 0x01 hassemble _
      [.op (.stack (.constant .zero)), .op (.branch .whenTrue), .op (.pushData .one),
        .push paddedSignature, .op (.branch .close)], rfl, rfl⟩
  obtain ⟨n, n', hrun, hresult, hcalls⟩ := hrun
  have hroom : (paddedZero.initial.length : Int) ≤ paddedZero.policy.maxStack := by decide
  rw [validatePair_apply rfl hroom, hempty, bind_of_ok (execute_of_run hrun)]
  exact ⟨n', hresult, hcalls⟩

/-- The message that is asked for is one of all of the script. -/
theorem validatePair_legacyCode_checkThenPush :
    paddedZero.segwit = false ∧
      ∃ n, validatePair paddedZero (disassemble []) (disassemble checkThenPushScript) {} =
          .ok true n ∧
        n.calls ≠ [] ∧
        ∀ c ∈ n.calls, ∃ place, ScriptCodeAt paddedZero
          (fun signatures ↦ [0xab] :: directPushes signatures) (disassemble []) checkThenPushScript
          (holding paddedZero.policy.maxStack paddedZero.initial.reverse []
            (disassemble checkThenPushScript)) place c.code := by
  obtain ⟨n, hvalidate, hcalls⟩ := validatePair_checkThenPush
  have hasks := (@validatePair_legacyCode paddedZero rfl [] checkThenPushScript {}).2
  rw [hvalidate] at hasks
  refine ⟨rfl, n, hvalidate, hcalls ▸ List.cons_ne_nil _ _, fun c hc ↦ ?_⟩
  rcases hasks.of_mem hc with hbefore | ⟨hcode, -⟩
  · cases hbefore
  · exact hcode

/-- No message is asked for of the script without every push of the signature: one that needs a
length field stays, which is no direct push. -/
theorem not_legacyCode_withoutPushes :
    ¬AsksFor paddedZero (fun code ↦ ∃ place, ScriptCodeAt paddedZero
          (fun signatures ↦ [0xab] :: (signatures.filter (· ≠ [])).map shortestPush)
          (disassemble []) checkThenPushScript
          (holding paddedZero.policy.maxStack paddedZero.initial.reverse []
            (disassemble checkThenPushScript)) place code)
      MachineError.refusal? (start paddedZero.policy.maxStack)
      (validatePair paddedZero (disassemble []) (disassemble checkThenPushScript) {}) := by
  intro hasks
  obtain ⟨n, hvalidate, hcalls⟩ := validatePair_checkThenPush
  rw [hvalidate] at hasks
  rcases hasks.of_mem (hcalls ▸ List.mem_cons_self) with hbefore | ⟨⟨place, hcode⟩, -⟩
  · cases hbefore
  · obtain ⟨s, signatures, after, n, ⟨htoken, harrives, -⟩, htakes, hsince, hcheck⟩ := hcode
    obtain ⟨rfl, rfl⟩ := eq_of_getElem_checkThenPush htoken
    cases harrives
    -- No separator is in front of the check, which takes the signature of 76 bytes.
    cases hsince with
    | behind front back i _ _ _ hlt => exact absurd hlt (Nat.not_lt_zero i)
    | whole =>
        cases htakes with
        | several htallies => cases htallies
        | one =>
            have hlength := congrArg List.length hcheck
            rw [withoutWritten, checkThenPushScript,
              Instruction.parse_flatMap_encode wellFormed_checkThenPush] at hlength
            revert hlength
            decide +kernel

end BitcoinSpend.Script.Machine
