import BitcoinSpend.Proofs.Script.Machine.Balanced
import BitcoinSpend.Proofs.Script.Machine.Related
import BitcoinSpend.Proofs.Script.Machine.Separator
import BitcoinSpend.Proofs.Script.Machine.Standard

/-!
# Scripts in sequence

An unlocking and a locking script are run as one list of tokens. If the unlocking script checks no
signatures, this comes to the same as running it alone and then, unless it failed, the locking script
alone on what it left. Only the script that signatures commit to may be another one where the
unlocking script fails. Read `validateInSequence` and `Twins` first; the main result is
`validatePair_inSequence`.
-/

namespace BitcoinSpend.Script.Machine

variable {α : Type} {env : Environment}

/-- Runs an unlocking script alone, from a cleared machine with the initial items, then, unless it
failed, a locking script alone on what that left, and takes the result. -/
def validateInSequence (env : Environment) (unlocking locking : List Token) : MachineM Bool := do
  set (start env.policy.maxStack)
  pushInitial env
  execute env unlocking 0
  if (← get).valid then execute env locking 0
  validateStack

/-- An outcome without the script that signatures commit to. -/
def forgetCode {ε : Type} : EStateM.Result ε Machine α → EStateM.Result ε Machine α
  | .ok a m => .ok a { m with code := [] }
  | .error e m => .error e { m with code := [] }

/-! ## Computations that do not look at the signed script -/

/-- Two machines on which no script has failed and that differ at most in the script that signatures
commit to. -/
inductive Twins (m : Machine) : Machine → Prop where
  | intro (code : List Token) : m.valid = true → Twins m { m with code }

/-- Twins have the same stacks and conditionals, and stay twins. -/
theorem Twins.lasting : Lasting Twins where
  memory := by rintro m _ ⟨code, hvalid⟩; rfl
  conditions := by rintro m _ ⟨code, hvalid⟩; rfl
  setMemory := by rintro m _ memory ⟨code, hvalid⟩; exact .intro code hvalid
  setConditions := by rintro m _ conditions ⟨code, hvalid⟩; exact .intro code hvalid
  addToken := by rintro m _ t ⟨code, hvalid⟩; exact .intro code hvalid
  addCalls := by rintro m _ asked ⟨code, hvalid⟩; exact .intro code hvalid

namespace Twins

/-- A separator, wherever it stands: it changes at most what signatures commit to. -/
theorem codeSeparator (left left' : Nat) (rest rest' : List Token) :
    Related Twins (signatureOp env left rest .codeSeparator)
      (signatureOp env left' rest' .codeSeparator) := by
  rintro m _ ⟨code, hvalid⟩
  have hchanged (left : Nat) (rest : List Token) (m : Machine) :
      signatureOp env left rest .codeSeparator m =
        .ok () { m with code := if left = 0 then rest else m.code } := by
    rw [signatureOp]
    split <;> rfl
  rw [hchanged, hchanged]
  exact .ok () (.intro (if left' = 0 then rest' else code) hvalid)

/-- A step over a token that checks no signature, if both lists go on with the same token behind a
push with a length field. -/
theorem step {left left' : Nat} {t : Token} {rest rest' : List Token}
    (hcheck : ∀ s, t = .op (.signature s) → s = .codeSeparator)
    (hdata : ∀ f, t = .op (.pushData f) → rest.head? = rest'.head?) :
    Related Twins (Machine.step env left rest t) (Machine.step env left' rest' t) := by
  intro m n h
  refine .step lasting hdata h fun s hs ↦ ?_
  obtain rfl := hcheck s hs
  exact codeSeparator left left' rest rest' m n h

/-- A part of a run that checks no signatures, whatever stands behind it. -/
theorem runPart {front behind behind' : List Token} {size : Nat} (hfront : Executable size front)
    (hcheck : ∀ s, .op (.signature s) ∈ front → s = .codeSeparator) (tookFirst : TookNext)
    (left left' : Nat) :
    Related Twins (Machine.runPart env behind tookFirst left front)
      (Machine.runPart env behind' tookFirst left' front) := by
  induction front generalizing tookFirst left left' with
  | nil => exact .pure _
  | cons t rest ih =>
      have hrest := ih hfront.tail fun s hs ↦ hcheck s (List.mem_cons_of_mem t hs)
      cases tookFirst with
      | true => exact hrest false (left - 1) (left' - 1)
      | false =>
          refine .bind (.record lasting t) fun _ ↦ .bind (step ?_ ?_) fun took ↦
            hrest took (left - 1) (left' - 1)
          · rintro s rfl
            exact hcheck s List.mem_cons_self
          · rintro f rfl
            obtain ⟨l, others, rfl⟩ := hfront.exists_literal
            rfl

end Twins

/-! ## Running the scripts -/

variable {tokens locking : List Token} {size : Nat}

/-- The whole of a list is what follows its beginning. -/
theorem suffixFrom_zero (tokens : List α) : suffixFrom tokens 0 = tokens := by
  rfl

/-- Running a script that has its data among its tokens and another one behind it: the second is
executed alone on what the first leaves. -/
theorem execute_of_runPart (htokens : Executable size tokens) {took : TookNext} {m n : Machine}
    (hpart : runPart env locking false tokens.length tokens { m with code := locking } =
      .ok took n) : execute env (tokens ++ locking) tokens.length m = execute env locking 0 n := by
  have htook : took = false :=
    runPart_executable htokens (fun h ↦ absurd h Bool.false_ne_true) hpart
  -- What signatures commit to when the second script begins is what it would be without the first.
  have hcode : n.code = locking := code_of_runPart (Nat.le_refl _) hpart
  have hsame : { n with code := locking } = n := by rw [← hcode]
  rw [execute, execute, suffixFrom_length, suffixFrom_zero, hsame, Int.toNat_natCast, ← resume_false,
    resume_append, bind_of_ok hpart, htook, Nat.sub_self]
  rfl

/-- Where the part of a run in front ends it, that is the end of the run. -/
theorem run_of_runPart_error {front back : List Token} {left : Nat} {e : Halt} {m n : Machine}
    (hpart : runPart env back false left front m = .error e n) :
    run env left (front ++ back) m = .error e n := by
  rw [← resume_false, resume_append, bind_of_error hpart]

/-- A script with nothing behind it ends where its part of the run does. -/
theorem run_of_runPart {left : Nat} {took : TookNext} {m n : Machine}
    (hpart : runPart env [] false left tokens m = .ok took n) : run env left tokens m = .ok () n := by
  rw [← List.append_nil tokens, ← resume_false, resume_append, bind_of_ok hpart]
  cases took <;> rfl

/-- How a run of two scripts as one list and a run of the first alone compare: they raise the same
error, or they fail, or the second script goes on where the first has ended. The machines differ at
most in the script that signatures commit to. -/
inductive Halves (env : Environment) (locking : List Token) :
    EStateM.Result MachineError Machine Unit → EStateM.Result MachineError Machine Unit → Prop where
  | raised (e : MachineError) (n : Machine) (code : List Token) :
      Halves env locking (.error e n) (.error e { n with code })
  | failed (n : Machine) (code : List Token) :
      Halves env locking (.ok () { n with valid := false }) (.ok () { n with code, valid := false })
  | goesOn (n : Machine) (code : List Token) : n.valid = true →
      Halves env locking (execute env locking 0 n) (.ok () { n with code })

/-- A script that has its data among its tokens and checks no signatures runs in front of another one
as it does alone. -/
theorem execute_halves (htokens : Executable size tokens)
    (hcheck : ∀ s, .op (.signature s) ∈ tokens → s = .codeSeparator) {m : Machine}
    (hvalid : m.valid = true) :
    Halves env locking (execute env (tokens ++ locking) tokens.length m)
      (execute env tokens 0 m) := by
  have hparts : RelatedOutcomes Twins
      (runPart env locking false tokens.length tokens { m with code := locking })
      (runPart env [] false 0 tokens { m with code := tokens }) :=
    Twins.runPart htokens hcheck false _ _ _ _ (.intro tokens hvalid)
  change Halves env locking _ (execute env ([] ++ tokens) ([] : List Token).length m)
  generalize hpair : runPart env locking false tokens.length tokens { m with code := locking } = pair
    at hparts
  generalize halone : runPart env [] false 0 tokens { m with code := tokens } = alone at hparts
  cases hparts with
  | @error e n _ htwins =>
      obtain ⟨code, -⟩ := htwins
      have hrun := run_of_runPart_error hpair
      have hrunAlone : run env ([] : List Token).length ([] ++ tokens) { m with code := tokens } =
          .error e { n with code } := by
        have hend := run_of_runPart_error halone
        rwa [List.append_nil] at hend
      cases e with
      | failed reason =>
          rw [execute_of_run_failed hrun, execute_of_run_failed hrunAlone]
          exact .failed n code
      | raised e =>
          rw [execute_of_run_raised hrun, execute_of_run_raised hrunAlone]
          exact .raised e n code
  | @ok took n _ htwins =>
      obtain ⟨code, hn⟩ := htwins
      have hrunAlone : run env ([] : List Token).length ([] ++ tokens) { m with code := tokens } =
          .ok () { n with code } :=
        run_of_runPart halone
      rw [execute_of_runPart htokens hpair, execute_of_run hrunAlone]
      exact .goesOn n code hn

/-- Pushing the initial items fails no script. -/
theorem pushInitial_valid {m n : Machine} (h : pushInitial env m = .ok () n) :
    n.valid = m.valid := by
  rw [pushInitial] at h
  split at h
  · cases h
    rfl
  · cases h

/-- A pair of scripts, of which the unlocking script checks no signatures, has the outcome of the two
scripts in sequence: the same result or error, the same stacks, the same messages asked for and the
same tokens run. -/
theorem validatePair_inSequence (env : Environment) {unlocking : Bytes}
    (hcheck : ∀ s, .op (.signature s) ∈ disassemble unlocking → s = .codeSeparator)
    (locking : List Token) (m : Machine) :
    forgetCode (validatePair env (disassemble unlocking) locking m) =
      forgetCode (validateInSequence env (disassemble unlocking) locking m) := by
  have htokens := executable_disassemble unlocking
  generalize disassemble unlocking = tokens at htokens hcheck ⊢
  change forgetCode ((pushInitial env >>= _ : MachineM Bool) (start env.policy.maxStack)) =
    forgetCode ((pushInitial env >>= _ : MachineM Bool) (start env.policy.maxStack))
  rw [bind_apply, bind_apply]
  cases hpush : pushInitial env (start env.policy.maxStack) with
  | error e a => rfl
  | ok _ a =>
      have hvalid : a.valid = true := pushInitial_valid hpush
      have hhalves : Halves env locking _ _ := execute_halves htokens hcheck hvalid
      dsimp only
      rw [bind_apply, bind_apply]
      generalize execute env (tokens ++ locking) tokens.length a = pair at hhalves ⊢
      generalize execute env tokens 0 a = alone at hhalves ⊢
      cases hhalves with
      | raised e n code => rfl
      | failed n code => rfl
      | goesOn n code hn =>
          have hsame : execute env locking 0 { n with code } = execute env locking 0 n := rfl
          have hgoes : (get >>= fun n' : Machine ↦ if n'.valid = true then
              execute env locking 0 >>= fun _ ↦ validateStack else validateStack : MachineM Bool)
                { n with code } = (execute env locking 0 >>= fun _ ↦ validateStack) n := by
            rw [get_bind_apply, if_pos hn, bind_apply, bind_apply, hsame]
          exact congrArg forgetCode ((bind_apply _ _ n).symm.trans hgoes.symm)

/-- A script that pushes the number one behind a separator. -/
theorem disassemble_separatedOne : disassemble [0xab, 0x51] =
    [.op (.signature .codeSeparator), .op (.stack (.constant (.small 0)))] := by
  have hwell : Instruction.WellFormed
      [.op (.signature .codeSeparator), .op (.stack (.constant (.small 0)))] :=
    .cons _ _ (.op _ nofun) (.cons _ _ (.op _ nofun) .nil)
  exact Instruction.disassemble_flatMap_encode hwell

/-- With separators on both sides, the number one is left for the locking script and comes out as the
result either way. -/
theorem validatePair_inSequence_separatedOne :
    ∃ n n', validatePair {} (disassemble [0xab, 0x51]) [.op (.signature .codeSeparator)] {} =
        .ok true n ∧
      validateInSequence {} (disassemble [0xab, 0x51]) [.op (.signature .codeSeparator)] {} =
        .ok true n' ∧
      n.memory = n'.memory ∧ n.conditions = n'.conditions ∧ n.calls = n'.calls := by
  have hcheck : ∀ s, .op (.signature s) ∈ disassemble [0xab, 0x51] → s = .codeSeparator := by
    rw [disassemble_separatedOne]
    simp
  have hsame := validatePair_inSequence {} hcheck [.op (.signature .codeSeparator)] {}
  rw [disassemble_separatedOne] at hsame ⊢
  have hpair : ∃ n, validatePair {} [.op (.signature .codeSeparator),
      .op (.stack (.constant (.small 0)))] [.op (.signature .codeSeparator)] {} = .ok true n :=
    ⟨_, rfl⟩
  obtain ⟨n, hpair⟩ := hpair
  rw [hpair] at hsame
  cases halone : validateInSequence {} [.op (.signature .codeSeparator),
      .op (.stack (.constant (.small 0)))] [.op (.signature .codeSeparator)] {} with
  | error e n' =>
      rw [halone] at hsame
      cases hsame
  | ok b n' =>
      rw [halone] at hsame
      simp only [forgetCode, EStateM.Result.ok.injEq, mk.injEq] at hsame
      obtain ⟨rfl, hmemory, hconditions, -, -, -, -, hcalls⟩ := hsame
      exact ⟨n, n', hpair, rfl, hmemory, hconditions, hcalls⟩

end BitcoinSpend.Script.Machine
