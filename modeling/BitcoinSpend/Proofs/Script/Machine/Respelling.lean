import BitcoinSpend.Proofs.Script.Respelled
import BitcoinSpend.Proofs.Script.Machine.Balanced
import BitcoinSpend.Proofs.Script.Machine.Related
import BitcoinSpend.Proofs.Script.Machine.ScriptCode

/-!
# Runs of respelled scripts

Running tokens and running the bytes to which they are assembled comes to the same: the same result
or error, the same stacks and conditionals and the same messages asked for. Only the log and the
tokens that signatures commit to are in another spelling. Outside segwit this needs that the
signatures which are checked are taken out of both spellings or of neither. Read `Respells` and
`ChecksAlike` first; the main result is `validatePair_respelled`.
-/

namespace BitcoinSpend.Script.Machine

variable {α : Type} {env : Environment} {m n a : Machine} {left place : Nat} {t : Token}
  {front back tokens others rest behind : List Token} {l : Literal}

/-! ## Runs behind a part -/

/-- What a run executes behind a part of a script, which does not use up the token behind it, it
executes in all of the script. -/
theorem Executes.append (hpart : runPart env back false left front m = .ok false a)
    (h : Executes env (left - front.length) back a place t n) :
    Executes env left (front ++ back) m (front.length + place) t n where
  token := by
    rw [List.getElem?_append_right (Nat.le_add_right _ _), Nat.add_sub_cancel_left]
    exact h.token
  arrives := by
    rw [runTo, List.take_length_add_append, List.drop_length_add_append, runPart_append,
      List.take_append_drop, bind_of_ok hpart]
    exact h.arrives
  executing := h.executing

/-- Outside segwit, the literals that a signature opcode of a run finds in the script which its
signatures commit to are taken out alike if they push one of these signatures. -/
def ChecksAlike (env : Environment) (tokens : List Token) (m : Machine) : Prop :=
  env.segwit = false → ∀ place s n signatures, Executes env 0 tokens m place (.op (.signature s)) n →
    Takes s signatures n.memory.main.items → DroppedAlike signatures n.code

/-- This goes for what a run executes behind a part of its script. -/
theorem ChecksAlike.append (h : ChecksAlike env (front ++ back) m)
    (hpart : runPart env back false 0 front m = .ok false a) : ChecksAlike env back a :=
  fun hsegwit place s n signatures hexecutes ↦
    h hsegwit (front.length + place) s n signatures
      (.append hpart (by rw [Nat.zero_sub]; exact hexecutes))

/-! ## Machines that differ in spelling -/

/-- Two machines that differ at most in their logs and in the spelling of the tokens that signatures
commit to. -/
structure Respells (m n : Machine) : Prop where
  memory : m.memory = n.memory
  conditions : m.conditions = n.conditions
  valid : m.valid = n.valid
  finalHeight : m.finalHeight = n.finalHeight
  calls : m.calls = n.calls
  code : Respelled m.code n.code

/-- Such machines have the same stacks and conditionals, and stay such machines. -/
theorem Respells.lasting : Lasting Respells where
  memory h := h.memory
  conditions h := h.conditions
  setMemory _ h := ⟨rfl, h.conditions, h.valid, h.finalHeight, h.calls, h.code⟩
  setConditions _ h := ⟨h.memory, rfl, h.valid, h.finalHeight, h.calls, h.code⟩
  addToken _ h := ⟨h.memory, h.conditions, h.valid, h.finalHeight, h.calls, h.code⟩
  addCalls asked h :=
    ⟨h.memory, h.conditions, h.valid, h.finalHeight, congrArg (asked ++ ·) h.calls, h.code⟩

/-- Two machines that differ at most in their logs. -/
inductive SameButLog (m : Machine) : Machine → Prop where
  | intro (log : List Token) : SameButLog m { m with log }

/-- Such machines have the same stacks and conditionals, and stay such machines. -/
theorem SameButLog.lasting : Lasting SameButLog where
  memory := by rintro m _ ⟨log⟩; rfl
  conditions := by rintro m _ ⟨log⟩; rfl
  setMemory := by rintro m _ memory ⟨log⟩; exact .intro log
  setConditions := by rintro m _ conditions ⟨log⟩; exact .intro log
  addToken := by rintro m _ t ⟨log⟩; exact .intro (t :: log)
  addCalls := by rintro m _ asked ⟨log⟩; exact .intro log

/-- The logs do not matter for machines that differ in spelling. -/
theorem RelatedOutcomes.respells {x y z w : EStateM.Result Halt Machine α}
    (hx : RelatedOutcomes SameButLog x y) (h : RelatedOutcomes Respells y z)
    (hw : RelatedOutcomes SameButLog w z) : RelatedOutcomes Respells x w := by
  have hlog {m n m' n' : Machine} (hm : SameButLog m m') (h : Respells m' n')
      (hn : SameButLog n n') : Respells m n := by
    obtain ⟨log⟩ := hm
    obtain ⟨log'⟩ := hn
    exact ⟨h.memory, h.conditions, h.valid, h.finalHeight, h.calls, h.code⟩
  cases hx with
  | ok a hm =>
      cases h with
      | ok _ h =>
          cases hw with
          | ok _ hn => exact .ok a (hlog hm h hn)
  | error e hm =>
      cases h with
      | error _ h =>
          cases hw with
          | error _ hn => exact .error e (hlog hm h hn)

/-! ## Pushes -/

/-- The log does not matter for the step of a literal. -/
theorem step_literal_log (env : Environment) (l : Literal) (m : Machine) (log : List Token) :
    RelatedOutcomes SameButLog (step env 0 [] (.literal l) { m with log })
      (step env 0 [] (.literal l) m) := by
  have hpush := (Related.compositional SameButLog.lasting).pushLiteral l
  refine .whenExecuting SameButLog.lasting (.intro m.log) fun _ ↦ ?_
  exact hpush.bind (fun _ ↦ .pure _) _ _ (.intro m.log)

/-- A literal that stands alone has the effect of its step, but for the log. -/
theorem runPart_literal (env : Environment) (behind : List Token) (l : Literal) (m : Machine) :
    RelatedOutcomes SameButLog (runPart env behind false left [.literal l] m)
      (step env 0 [] (.literal l) m) := by
  rw [runPart_singleton]
  exact step_literal_log env l m _

/-- The opcode for zero has the effect of a literal without data. -/
theorem runPart_zero (env : Environment) (behind : List Token) (hl : l.data = []) (m : Machine) :
    RelatedOutcomes SameButLog
      (runPart env behind false left [.op (.stack (.constant .zero))] m)
      (step env 0 [] (.literal l) m) := by
  have hpush : (do
      require (← onStacks (StackOp.perform (.constant .zero)))
      return false : StepM TookNext) = (do
      pushLiteral l
      return false) := by
    have hzero : Stack.pushNumber (Constant.value .zero) = Stack.push [] := rfl
    have hfits : ¬maxItemSize < ([] : Bytes).length := Nat.not_lt_zero _
    funext m
    simp only [pushLiteral, hl, if_neg hfits, StackOp.perform, hzero, onMainStack, onStacks,
      bind_apply]
    cases onMain (Stack.push []) m.memory <;> rfl
  have hsame : step env left behind (.op (.stack (.constant .zero))) = step env 0 [] (.literal l) :=
    (step_op ..).trans (congrArg (whenExecuting env) hpush)
  rw [runPart_singleton, hsame]
  exact step_literal_log env l m _

/-- A literal behind a length field has the effect of a literal that stands alone. -/
theorem runPart_sized (env : Environment) (behind : List Token) (f : LengthField) (l : Literal)
    (m : Machine) :
    RelatedOutcomes SameButLog
      (runPart env behind false left [.op (.pushData f), .literal l] m)
      (step env 0 [] (.literal l) m) := by
  have hfield : step env left (.literal l :: behind) (.op (.pushData f)) = whenExecuting env (do
      pushLiteral l
      record (.literal l)
      return true) := step_op ..
  have hliteral : step env 0 [] (.literal l) = whenExecuting env (do
      pushLiteral l
      return false) := rfl
  have hlog : SameButLog { m with log := .op (.pushData f) :: m.log } m := .intro m.log
  rw [runPart_cons_apply, List.singleton_append, hfield, hliteral]
  cases hm : m.executing with
  | true =>
      have hexecuting : executing { m with log := .op (.pushData f) :: m.log } = true := hm
      rw [bind_apply, whenExecuting_taken env _ hexecuting, whenExecuting_taken env _ hm,
        ← bind_apply]
      simp only [bind_assoc, pure_bind]
      refine ((Related.compositional SameButLog.lasting).pushLiteral l _ _ hlog).bind ?_
      intro _ m' n' _ hsame
      have hrecorded : SameButLog { m' with log := .literal l :: m'.log } n' := by
        obtain ⟨log⟩ := hsame
        exact .intro log
      exact (RelatedOutcomes.checkHeights SameButLog.lasting env hrecorded).bind
        fun _ _ _ _ h ↦ .ok false h
  | false =>
      -- Each of the two tokens is passed over by itself.
      have hskipped : executing { m with log := .op (.pushData f) :: m.log } = false := hm
      rw [bind_of_ok (whenExecuting_skipped env _ hskipped), runPart_singleton, ← hliteral]
      exact step_literal_log env l m (.literal l :: .op (.pushData f) :: m.log)

/-- A literal and the literal for its data have the same effect. -/
theorem step_literal_respelled (h : Respells m n) (l : Literal) :
    RelatedOutcomes Respells (step env 0 [] (.literal l) m) (step env 0 [] (.push l.data) n) := by
  have hpush := (Related.compositional Respells.lasting).pushLiteral l
  exact .whenExecuting Respells.lasting h fun _ ↦ hpush.bind (fun _ ↦ .pure _) m n h

/-! ## Signature opcodes -/

/-- The script that signatures commit to has the same bytes in both spellings. -/
theorem scriptCode_respelled (h : Respells m n) {signatures : List Bytes}
    (hsame : env.segwit = false → DroppedAlike signatures m.code) :
    RelatedOutcomes Respells (scriptCode env signatures m) (scriptCode env signatures n) := by
  rw [scriptCode, get_bind_apply, get_bind_apply, assemble_committedTokens_respelled h.code hsame]
  exact Related.orRaise _ _ m n h

/-- A check of one signature comes to the same. -/
theorem checkSig_respelled (h : Respells m n) {s : SignatureOp}
    (hs : s = .checkSig ∨ s = .checkSigVerify)
    (hsame : env.segwit = false → ∀ signatures, Takes s signatures m.memory.main.items →
      DroppedAlike signatures m.code) :
    RelatedOutcomes Respells (checkSig env m) (checkSig env n) := by
  refine (Related.onStacks Respells.lasting _ m n h).bind fun (key, signature) m' n' hpop h' ↦ ?_
  have hcode : env.segwit = false → DroppedAlike [signature] m'.code := by
    intro hsegwit
    obtain ⟨first, second, below, hitems, hpair⟩ | ⟨reason, last, hfail, -⟩ :=
      onMainStack_popPair_cases m
    · obtain ⟨hvalues, rfl⟩ := (EStateM.Result.ok.injEq ..).mp (hpair.symm.trans hpop)
      cases hvalues
      exact hsame hsegwit [signature] (hitems ▸ .one s signature key below hs)
    · cases hfail.symm.trans hpop
  exact (scriptCode_respelled h' hcode).bind fun _ _ _ _ h ↦
    Related.perform Respells.lasting _ _ _ h

/-- A check of several signatures comes to the same. -/
theorem checkMultiSig_respelled (h : Respells m n) {s : SignatureOp} {conclude : Bool → StepM Unit}
    (hs : Tallies s conclude)
    (hsame : env.segwit = false → ∀ signatures, Takes s signatures m.memory.main.items →
      DroppedAlike signatures m.code) :
    RelatedOutcomes Respells (checkMultiSig env m) (checkMultiSig env n) := by
  have hlasting := Related.compositional Respells.lasting
  rw [checkMultiSig_eq]
  refine (hlasting.takeBallot m n h).bind fun (signatures, keys) m' n' htake h' ↦ ?_
  have hcode : env.segwit = false → DroppedAlike signatures m'.code := by
    intro hsegwit
    obtain ⟨below, hballot, rfl⟩ := ballot_of_takeBallot htake
    exact hsame hsegwit signatures (.several hs hballot)
  exact (scriptCode_respelled h' hcode).bind fun code _ _ _ h ↦
    hlasting.matchSignatures (fun _ _ ↦ .perform Respells.lasting _) signatures keys _ _ h

/-- A signature opcode comes to the same in front of respelled tokens. -/
theorem signatureOp_respelled (h : Respells m n) (hrest : Respelled tokens rest) (s : SignatureOp)
    (hsame : env.segwit = false → ∀ signatures, Takes s signatures m.memory.main.items →
      DroppedAlike signatures m.code) :
    RelatedOutcomes Respells (signatureOp env 0 tokens s m) (signatureOp env 0 rest s n) := by
  have hpush (ok : Bool) := Related.onStacks Respells.lasting (onMain (Stack.pushBool ok))
  have hrequire (ok : Bool) := (Related.compositional Respells.lasting).require ok
  cases s with
  | codeSeparator =>
      exact .ok () ⟨h.memory, h.conditions, h.valid, h.finalHeight, h.calls, hrest⟩
  | checkSig =>
      exact (checkSig_respelled h (.inl rfl) hsame).bind fun ok m n _ h ↦ hpush ok m n h
  | checkSigVerify =>
      exact (checkSig_respelled h (.inr rfl) hsame).bind fun ok m n _ h ↦ hrequire ok m n h
  | checkMultiSig =>
      exact (checkMultiSig_respelled h .push hsame).bind fun ok m n _ h ↦ hpush ok m n h
  | checkMultiSigVerify =>
      exact (checkMultiSig_respelled h .verify hsame).bind fun ok m n _ h ↦ hrequire ok m n h

/-! ## Runs -/

/-- An opcode comes to the same by any of its mnemonics. -/
theorem runPart_opcode (h : Respells m n) (hrest : Respelled tokens rest) {o : Opcode}
    (ho : t.opcode? = some o) (hfield : ∀ f, o ≠ .pushData f)
    (hchecks : env.segwit = false → ∀ s signatures, t = .op (.signature s) → m.executing = true →
      Takes s signatures m.memory.main.items → DroppedAlike signatures m.code) :
    RelatedOutcomes Respells (runPart env tokens false 0 [t] m)
      (runPart env rest false 0 [.op o] n) := by
  have hstep : step env 0 tokens t = opcode env 0 t tokens o := by
    cases t with
    | op o' => cases ho; exact step_op ..
    | synonym a => cases ho; exact step_synonym ..
    | literal | invalid | unknown => cases ho
  -- Only four opcodes have synonyms, and none of them fails a script by its name or checks signatures.
  have hname : (∃ a : Synonym, o = a.opcode) ∨ t = .op o := by
    cases t with
    | op o' => cases ho; exact .inr rfl
    | synonym a => cases ho; exact .inl ⟨a, rfl⟩
    | literal | invalid | unknown => cases ho
  have hlogged : Respells { m with log := t :: m.log } { n with log := .op o :: n.log } :=
    ⟨h.memory, h.conditions, h.valid, h.finalHeight, h.calls, h.code⟩
  rw [runPart_singleton, runPart_singleton, hstep, step_op]
  refine .opcode Respells.lasting (fun r hr ↦ ?_) (fun f hf ↦ absurd hf (hfield f)) hlogged
    fun s hs hexecuting ↦ ?_
  · obtain ⟨a, ha⟩ | ht := hname
    · cases a <;> cases ha.symm.trans hr
    · exact ht
  · refine signatureOp_respelled hlogged hrest s fun hsegwit signatures htakes ↦ ?_
    obtain ⟨a, ha⟩ | ht := hname
    · cases a <;> cases ha.symm.trans hs
    · exact hchecks hsegwit s signatures (ht.trans (congrArg _ hs)) hexecuting htakes

/-- An instruction comes to the same in both spellings. -/
theorem runPart_respelled (h : Respells m n) (hrest : Respelled tokens rest)
    (hspelling : Spelling front others)
    (hchecks : env.segwit = false → ∀ s signatures, front = [.op (.signature s)] →
      m.executing = true → Takes s signatures m.memory.main.items →
      DroppedAlike signatures m.code) :
    RelatedOutcomes Respells (runPart env tokens false 0 front m)
      (runPart env rest false 0 others n) := by
  cases hspelling with
  | opcode ho hfield =>
      refine runPart_opcode h hrest ho hfield fun hsegwit s signatures ht ↦ ?_
      exact hchecks hsegwit s signatures (congrArg ([·]) ht)
  | @empty l hdata =>
      have hzero : (Literal.ofBytes l.data).data = [] := hdata
      exact (runPart_literal env tokens l m).respells (step_literal_respelled h l)
        (runPart_zero env rest hzero n)
  | @direct l =>
      exact (runPart_literal env tokens l m).respells (step_literal_respelled h l)
        (runPart_literal env rest (.ofBytes l.data) n)
  | @long f l =>
      exact (runPart_literal env tokens l m).respells (step_literal_respelled h l)
        (runPart_sized env rest f (.ofBytes l.data) n)
  | @sized f l =>
      exact (runPart_sized env tokens f l m).respells (step_literal_respelled h l)
        (runPart_sized env rest f (.ofBytes l.data) n)

/-- A run of respelled tokens comes to the same. -/
theorem run_respelled (h : Respells m n) (htokens : Respelled tokens others)
    (hchecks : ChecksAlike env tokens m) :
    RelatedOutcomes Respells (run env 0 tokens m) (run env 0 others n) := by
  induction htokens generalizing m n with
  | nil => exact .ok () h
  | @append front others tokens rest hspelling hrest ih =>
      have hpart : RelatedOutcomes Respells (runPart env tokens false 0 front m)
          (runPart env rest false 0 others n) := by
        refine runPart_respelled h hrest hspelling
          fun hsegwit s signatures hfront hexecuting htakes ↦ ?_
        subst hfront
        exact hchecks hsegwit 0 s m signatures ⟨rfl, rfl, hexecuting⟩ htakes
      rw [← resume_false, resume_append, ← resume_false, resume_append]
      refine hpart.bind fun took m' n' hfront h' ↦ ?_
      obtain ⟨size, hexecutable⟩ := hspelling.executable
      obtain rfl := runPart_executable hexecutable (fun h ↦ absurd h Bool.false_ne_true) hfront
      rw [resume_false, resume_false, Nat.zero_sub, Nat.zero_sub]
      exact ih h' (hchecks.append hfront)

/-! ## Scripts -/

/-- An outcome without the log and the script that signatures commit to. -/
def forgetTokens {ε : Type} : EStateM.Result ε Machine α → EStateM.Result ε Machine α
  | .ok a m => .ok a { m with log := [], code := [] }
  | .error e m => .error e { m with log := [], code := [] }

/-- Machines that differ in spelling are the same without their tokens. -/
theorem Respells.forget (h : Respells m n) :
    { m with log := [], code := [] } = ({ n with log := [], code := [] } : Machine) := by
  rw [mk.injEq]
  exact ⟨h.memory, h.conditions, rfl, h.valid, h.finalHeight, rfl, h.calls⟩

/-- The result does not depend on the spelling. -/
theorem forgetTokens_validateStack (h : Respells m n) :
    forgetTokens (validateStack m) = forgetTokens (validateStack n) := by
  rw [validateStack, modify_bind_apply, modify_bind_apply, get_bind_apply, get_bind_apply]
  dsimp only
  rw [h.valid, h.conditions, h.memory]
  split
  · exact congrArg (EStateM.Result.ok false) (Respells.forget ⟨rfl, rfl, rfl, rfl, h.calls, h.code⟩)
  · cases n.memory.main.items with
    | nil =>
        exact congrArg (EStateM.Result.ok false)
          (Respells.forget ⟨rfl, rfl, rfl, rfl, h.calls, h.code⟩)
    | cons top below =>
        exact congrArg (EStateM.Result.ok (Number.truth top))
          (Respells.forget ⟨rfl, rfl, rfl, rfl, h.calls, h.code⟩)

/-- Running tokens has the outcome of running the bytes to which they are assembled: the same result
or error, the same stacks and conditionals, and the same messages asked for. Outside segwit this needs
the signatures that are checked to be taken out of the script in both spellings or in neither. -/
theorem validatePair_respelled (env : Environment) {tokens : List Token} {bytes : Bytes}
    (hassemble : assemble tokens = .ok bytes) (hinvalid : ∀ t ∈ tokens, t.isInvalid = false)
    (hchecks : ChecksAlike env tokens (holding env.policy.maxStack env.initial.reverse [] tokens))
    (m : Machine) :
    forgetTokens (validatePair env [] tokens m) =
      forgetTokens (validatePair env [] (disassemble bytes) m) := by
  have hrespelled := respelled_of_assemble hinvalid hassemble
  generalize disassemble bytes = others at hrespelled ⊢
  by_cases hroom : (env.initial.length : Int) ≤ env.policy.maxStack
  · have hruns : RelatedOutcomes Respells
        (run env ([] : List Token).length ([] ++ tokens)
          (holding env.policy.maxStack env.initial.reverse [] tokens))
        (run env ([] : List Token).length ([] ++ others)
          (holding env.policy.maxStack env.initial.reverse [] others)) :=
      run_respelled ⟨rfl, rfl, rfl, rfl, rfl, hrespelled⟩ hrespelled hchecks
    generalize htokens : run env ([] : List Token).length ([] ++ tokens)
      (holding env.policy.maxStack env.initial.reverse [] tokens) = left at hruns
    generalize hothers : run env ([] : List Token).length ([] ++ others)
      (holding env.policy.maxStack env.initial.reverse [] others) = right at hruns
    rw [validatePair_apply rfl hroom, validatePair_apply rfl hroom]
    cases hruns with
    | ok _ h =>
        rw [bind_of_ok (execute_of_run htokens), bind_of_ok (execute_of_run hothers)]
        exact forgetTokens_validateStack h
    | error e h =>
        cases e with
        | failed reason =>
            rw [bind_of_ok (execute_of_run_failed htokens),
              bind_of_ok (execute_of_run_failed hothers)]
            exact forgetTokens_validateStack
              ⟨h.memory, h.conditions, rfl, h.finalHeight, h.calls, h.code⟩
        | raised e =>
            rw [bind_of_error (execute_of_run_raised htokens),
              bind_of_error (execute_of_run_raised hothers)]
            exact congrArg (EStateM.Result.error e) h.forget
  · rw [validatePair_overflow (Int.not_le.mp hroom), validatePair_overflow (Int.not_le.mp hroom)]

/-- Results that are the same without the tokens have the same stacks and messages. -/
theorem eq_of_forgetTokens {ε : Type} {a b : α}
    (h : forgetTokens (.ok a m : EStateM.Result ε Machine α) = forgetTokens (.ok b n)) :
    a = b ∧ m.memory = n.memory ∧ m.calls = n.calls := by
  simp only [forgetTokens, EStateM.Result.ok.injEq, mk.injEq] at h
  obtain ⟨hvalue, hmemory, -, -, -, -, -, hcalls⟩ := h
  exact ⟨hvalue, hmemory, hcalls⟩

/-! ## A check in front of a literal -/

/-- A check of a signature, and behind it tokens in a branch that is not taken. -/
def checkThenSkip (skipped : List Token) : List Token :=
  [.op (.signature .checkSig), .op (.stack (.constant .zero)), .op (.branch .whenTrue)] ++ skipped ++
    [.op (.branch .close)]

/-- An environment in which every message is zero, with a signature and the generator as initial
items. -/
def zeroHolding (signature : Bytes) : Environment :=
  { zeroEnvironment with initial := [signature, generatorKey.uncompressed] }

/-- The check asks for a message of what the signature commits to, and the script is valid. -/
theorem validatePair_checkThenSkip {encoded bytes : Bytes}
    (hdecoded : Signature.decode true encoded = .ok zeroSignature)
    (hassemble : assemble (committedTokens (zeroHolding (encoded ++ [0x01])) [encoded ++ [0x01]]
      (checkThenSkip [.literal l])) = .ok bytes) :
    ∃ n, validatePair (zeroHolding (encoded ++ [0x01])) [] (checkThenSkip [.literal l]) {} =
        .ok true n ∧
      n.calls = [⟨bytes, 0x01, List.replicate 32 0⟩] := by
  have hrun : ∃ n n', run (zeroHolding (encoded ++ [0x01])) ([] : List Token).length
        ([] ++ checkThenSkip [.literal l])
        { start 1000 with
          memory.main.items := (zeroHolding (encoded ++ [0x01])).initial.reverse
          code := checkThenSkip [.literal l] } = .ok () n ∧
      validateStack n = .ok true n' ∧ n'.calls = [⟨bytes, 0x01, List.replicate 32 0⟩] :=
    ⟨_, _, run_checkSig_generatorKey rfl rfl hdecoded 0x01 hassemble []
      [.op (.stack (.constant .zero)), .op (.branch .whenTrue), .literal l, .op (.branch .close)],
      rfl, rfl⟩
  obtain ⟨n, n', hrun, hresult, hcalls⟩ := hrun
  have hroom : ((zeroHolding (encoded ++ [0x01])).initial.length : Int) ≤
      (zeroHolding (encoded ++ [0x01])).policy.maxStack := by
    change (2 : Int) ≤ 1000
    decide
  rw [validatePair_apply rfl hroom, bind_of_ok (execute_of_run hrun)]
  exact ⟨n', hresult, hcalls⟩

/-- A run finds the signature in front of the check among the initial items, and no other signature
opcode. -/
theorem eq_of_executes_checkThenSkip {signature : Bytes} {s : SignatureOp}
    {signatures : List Bytes}
    (h : Executes (zeroHolding signature) 0 (checkThenSkip [.literal l])
      (holding 1000 [generatorKey.uncompressed, signature] [] (checkThenSkip [.literal l])) place
      (.op (.signature s)) n)
    (htakes : Takes s signatures n.memory.main.items) :
    signatures = [signature] ∧ n.code = checkThenSkip [.literal l] := by
  obtain ⟨htoken, harrives, -⟩ := h
  rcases place with _ | _ | _ | _ | _ | place <;> cases htoken
  cases harrives
  cases htakes with
  | one => exact ⟨rfl, rfl⟩
  | several htallies => cases htallies

/-- A literal in upper case. -/
def upperByte : Literal :=
  ⟨"AB", [0xab], by decide⟩

/-- The check comes to the same behind which a byte is written in upper case. -/
theorem validatePair_respelled_upperByte :
    ∃ n n', validatePair (zeroHolding (zeroEncoded ++ [0x01])) []
          (checkThenSkip [.literal upperByte]) {} = .ok true n ∧
      validatePair (zeroHolding (zeroEncoded ++ [0x01])) []
          (disassemble [0xac, 0x00, 0x63, 0x01, 0xab, 0x68]) {} = .ok true n' ∧
      n.memory = n'.memory ∧ n.calls = n'.calls ∧ n.calls ≠ [] := by
  have hassemble : assemble (checkThenSkip [.literal upperByte]) =
      .ok [0xac, 0x00, 0x63, 0x01, 0xab, 0x68] := rfl
  have hinvalid : ∀ t ∈ checkThenSkip [.literal upperByte], t.isInvalid = false := by decide
  have hchecks : ChecksAlike (zeroHolding (zeroEncoded ++ [0x01]))
      (checkThenSkip [.literal upperByte])
      (holding 1000 [generatorKey.uncompressed, zeroEncoded ++ [0x01]] []
        (checkThenSkip [.literal upperByte])) := by
    rintro - place s n signatures hexecutes htakes k ⟨front, back, hsplit, -⟩ hmem
    obtain ⟨rfl, hcode⟩ := eq_of_executes_checkThenSkip hexecutes htakes
    -- The only literal is the byte, which is no signature.
    have hk : Token.literal k ∈ checkThenSkip [.literal upperByte] := by
      rw [← hcode, hsplit]
      exact List.mem_append_right front List.mem_cons_self
    simp only [checkThenSkip, List.cons_append, List.nil_append, List.mem_cons, reduceCtorEq,
      Token.literal.injEq, List.not_mem_nil, false_or, or_false] at hk
    subst hk
    revert hmem
    decide +kernel
  have hcommitted : assemble (committedTokens (zeroHolding (zeroEncoded ++ [0x01]))
      [zeroEncoded ++ [0x01]] (checkThenSkip [.literal upperByte])) =
        .ok [0xac, 0x00, 0x63, 0x01, 0xab, 0x68] := by decide +kernel
  obtain ⟨n, hvalid, hcalls⟩ := validatePair_checkThenSkip decode_zeroEncoded hcommitted
  have hsame := validatePair_respelled _ hassemble hinvalid hchecks {}
  rw [hvalid] at hsame
  cases hother : validatePair (zeroHolding (zeroEncoded ++ [0x01])) []
      (disassemble [0xac, 0x00, 0x63, 0x01, 0xab, 0x68]) {} with
  | error e n' =>
      rw [hother] at hsame
      cases hsame
  | ok b n' =>
      rw [hother] at hsame
      obtain ⟨rfl, hmemory, hother⟩ := eq_of_forgetTokens hsame
      exact ⟨n, n', hvalid, rfl, hmemory, hother, hcalls ▸ List.cons_ne_nil _ _⟩

/-- The signature of zero in upper case. -/
def upperSignature : Literal where
  text := String.ofList ((Hex.encode (zeroEncoded ++ [0x01])).toList.map Char.toUpper)
  data := zeroEncoded ++ [0x01]
  read_text := by decide +kernel

/-- The check and a direct push of the signature behind it. -/
def checkThenSignature : List Instruction :=
  [.op (.signature .checkSig), .op (.stack (.constant .zero)), .op (.branch .whenTrue),
    .direct (zeroEncoded ++ [0x01]), .op (.branch .close)]

/-- The tokens of these instructions. -/
theorem disassemble_checkThenSignature :
    disassemble (checkThenSignature.flatMap Instruction.encode) =
      checkThenSkip [.push (zeroEncoded ++ [0x01])] := by
  have hdirect : (Instruction.direct (zeroEncoded ++ [0x01])).Complete :=
    .direct _ (by decide +kernel) (by decide +kernel)
  have hwell : Instruction.WellFormed checkThenSignature :=
    .cons _ _ (.op _ nofun) (.cons _ _ (.op _ nofun) (.cons _ _ (.op _ nofun)
      (.cons _ _ hdirect (.cons _ _ (.op _ nofun) .nil))))
  exact Instruction.disassemble_flatMap_encode hwell

/-- Two spellings of a script do not come to the same where a signature that is checked is taken out
of one of them only: in upper case it stays although it has a direct push, and without its length
field it is taken out although it is too long for one. -/
theorem not_validatePair_respelled :
    (∃ bytes, assemble (checkThenSkip [.literal upperSignature]) = .ok bytes ∧
      (∀ t ∈ checkThenSkip [.literal upperSignature], t.isInvalid = false) ∧
      forgetTokens (validatePair (zeroHolding (zeroEncoded ++ [0x01])) []
          (checkThenSkip [.literal upperSignature]) {}) ≠
        forgetTokens (validatePair (zeroHolding (zeroEncoded ++ [0x01])) []
          (disassemble bytes) {})) ∧
    ∃ bytes, assemble (checkThenSkip [.push paddedSignature]) = .ok bytes ∧
      (∀ t ∈ checkThenSkip [.push paddedSignature], t.isInvalid = false) ∧
      forgetTokens (validatePair (zeroHolding paddedSignature) []
          (checkThenSkip [.push paddedSignature]) {}) ≠
        forgetTokens (validatePair (zeroHolding paddedSignature) [] (disassemble bytes) {}) := by
  constructor
  · have hkept : assemble (committedTokens (zeroHolding (zeroEncoded ++ [0x01]))
        [zeroEncoded ++ [0x01]] (checkThenSkip [.literal upperSignature])) =
          .ok (checkThenSignature.flatMap Instruction.encode) := by decide +kernel
    have hdropped : assemble (committedTokens (zeroHolding (zeroEncoded ++ [0x01]))
        [zeroEncoded ++ [0x01]] (checkThenSkip [.push (zeroEncoded ++ [0x01])])) =
          .ok [0xac, 0x00, 0x63, 0x68] := by decide +kernel
    refine ⟨checkThenSignature.flatMap Instruction.encode, by decide +kernel, by decide, ?_⟩
    rw [disassemble_checkThenSignature]
    intro hsame
    obtain ⟨n, hvalid, hcalls⟩ := validatePair_checkThenSkip decode_zeroEncoded hkept
    obtain ⟨n', hvalid', hcalls'⟩ := validatePair_checkThenSkip decode_zeroEncoded hdropped
    rw [hvalid, Token.push, hvalid'] at hsame
    have hbytes := (hcalls.symm.trans (eq_of_forgetTokens hsame).2.2).trans hcalls'
    revert hbytes
    decide +kernel
  · have hdecoded : Signature.decode true (zeroEncoded ++ List.replicate 5 0) = .ok zeroSignature := by
      decide +kernel
    have hdropped : assemble (committedTokens (zeroHolding paddedSignature) [paddedSignature]
        (checkThenSkip [.push paddedSignature])) = .ok [0xac, 0x00, 0x63, 0x68] := by decide +kernel
    refine ⟨checkThenPushScript, by decide +kernel, by decide, ?_⟩
    intro hsame
    obtain ⟨n, hvalid, hcalls⟩ := validatePair_checkThenSkip hdecoded hdropped
    obtain ⟨n', hvalid', hcalls'⟩ := validatePair_checkThenPush
    have hempty : disassemble [] = [] := disassemble_eq_nil_iff.mpr rfl
    rw [hempty] at hvalid'
    have hpadded : validatePair (zeroHolding paddedSignature) []
        (checkThenSkip [.push paddedSignature]) {} = .ok true n := hvalid
    have hsized : validatePair (zeroHolding paddedSignature) [] (disassemble checkThenPushScript) {} =
        .ok true n' := hvalid'
    rw [hpadded, hsized] at hsame
    have hbytes := (hcalls.symm.trans (eq_of_forgetTokens hsame).2.2).trans hcalls'
    revert hbytes
    decide +kernel

end BitcoinSpend.Script.Machine
