import BitcoinSpend.Proofs.Verification.Journal
import BitcoinSpend.Proofs.Verification.Verdict

/-!
# Payments to a script

A payment to a script is spent by an unlocking script that provides the script: it does nothing but
push, everything that it pushes has room, and what it pushes last has the right digest. The verdict
is then that of the script that was provided, run behind the other pushes. Read `Provides` first;
the main result is `verifyInput_scriptHash`.
-/

namespace BitcoinSpend

namespace Script

/-- The unlocking scripts that provide a script behind other pushes: they only push, without
`OP_RESERVED`, no item is too long, and there is room for one more item than they push. -/
structure Provides (maxStack : Int) (unlocking before : List Token) (script : Bytes) : Prop where
  pushOnly : isPushOnly unlocking = true
  notReserved : .op (.reserved .reserved) ∉ unlocking
  parts : ∃ items push, unlocking = before ++ push ∧ Pushes before items ∧ Push push script ∧
    (∀ item ∈ items ++ [script], item.length ≤ maxItemSize) ∧
    ((items ++ [script]).length : Int) + 1 ≤ maxStack

/-- Scripts that push provide the script that they push last. -/
theorem Pushes.provides {maxStack : Int} {unlocking : List Token} {items : List Bytes}
    {script : Bytes} (h : Pushes unlocking (items ++ [script]))
    (hsizes : ∀ item ∈ items ++ [script], item.length ≤ maxItemSize)
    (hroom : ((items ++ [script]).length : Int) + 1 ≤ maxStack) :
    ∃ before, Provides maxStack unlocking before script := by
  have hne : unlocking ≠ [] := by
    intro hempty
    exact List.append_ne_nil_of_right_ne_nil items (List.cons_ne_nil _ _) (h.items_eq_nil hempty)
  obtain ⟨before, push, others, last, rfl, hitems, hbefore, hpush⟩ := h.exists_last hne
  obtain ⟨rfl, rfl⟩ := List.append_singleton_inj.mp hitems
  refine ⟨before, ?_, fun hmem ↦ (h.mem hmem).2 rfl, items, push, rfl, hbefore, hpush, hsizes,
    hroom⟩
  exact List.all_eq_true.mpr fun _ ht ↦ (h.mem ht).1

/-! ## Numbers as scripts -/

/-- The shortest form of a number other than zero is a script of one token, which fails every script
that executes it. -/
theorem disassemble_constant {c : Constant} (hc : c ≠ .zero) :
    ∃ t, disassemble (Number.encode c.value) = [t] ∧ (t.isBarred = true ∨ t.failsExecuted = true) := by
  cases c with
  | zero => exact absurd rfl hc
  | minusOne =>
      exact ⟨_, Instruction.disassemble_opcode (o := .disabled .right) nofun, .inl rfl⟩
  | small n =>
      -- The byte is the length of a push that has no data.
      have hbytes : ∀ n : Fin 16, Number.encode (Constant.small n).value =
          [UInt8.ofNat (n.val + 1)] ∧ 1 ≤ (UInt8.ofNat (n.val + 1)).toNat ∧
            (UInt8.ofNat (n.val + 1)).toNat ≤ 75 := by
        decide
      obtain ⟨hencode, hmin, hmax⟩ := hbytes n
      have hwell : Instruction.WellFormed [.truncated [UInt8.ofNat (n.val + 1)]] :=
        .truncated _ (.direct _ [] hmin hmax hmin)
      rw [hencode]
      exact ⟨_, Instruction.disassemble_flatMap_encode hwell, .inr rfl⟩

namespace Machine

variable {env : Environment} {m : Machine} {left : Nat} {rest : List Token}

/-- A number other than zero is no script that can be satisfied behind pushes. -/
theorem validatePair_constant (hinitial : env.initial = []) {before : List Token}
    {items : List Bytes} (hbefore : Pushes before items)
    (hsizes : ∀ item ∈ items, item.length ≤ maxItemSize)
    (hroom : (items.length : Int) ≤ env.policy.maxStack) {c : Constant} (hc : c ≠ .zero)
    (m : Machine) :
    ∃ n, validatePair env before (disassemble (Number.encode c.value)) m = .ok false n := by
  obtain ⟨t, htokens, ht⟩ := disassemble_constant hc
  rw [htokens]
  have hall : (([] : List Bytes).length : Int) + items.length ≤ env.policy.maxStack := by
    rwa [List.length_nil, Int.natCast_zero, Int.zero_add]
  obtain ⟨log, hpushed⟩ := run_pushes hbefore hsizes hall before.length [t] [] [t]
  have hstep : ∃ reason n, step env (before.length - before.length) [] t
      (holding env.policy.maxStack (items.reverse ++ []) (t :: log) [t]) =
        .error (.failed reason) n := by
    rcases ht with hbarred | hfails
    · exact step_isBarred hbarred ..
    · exact ⟨_, _, step_failsExecuted hfails rfl⟩
  obtain ⟨reason, n, hhalt⟩ := hstep
  have hmax : 0 ≤ env.policy.maxStack := by omega
  exact validatePair_of_run_failed hinitial hmax (hpushed.trans (run_cons_error hhalt))

end Machine

end Script

namespace Verification

open Script

/-! ## Verdicts without the journal -/

/-- What an outcome decides. -/
def verdict (outcome : EStateM.Result SpendError Journal Bool) : Except SpendError Bool :=
  match outcome with
  | .ok b _ => .ok b
  | .error e _ => .error e

/-- An outcome with a result decides it. -/
theorem ok_of_verdict {outcome : EStateM.Result SpendError Journal Bool} {b : Bool}
    (h : verdict outcome = .ok b) : ∃ journal, outcome = .ok b journal := by
  cases outcome with
  | ok c journal =>
      cases h
      exact ⟨journal, rfl⟩
  | error e journal => cases h

namespace Spend

variable {s : Spend} {witness : Witness} {unlocking locking before : List Token} {l : Literal}
  {script : Bytes} {journal journal' : Journal}

/-- What a single run decides does not depend on what is in the journal before it. -/
theorem SingleRun.verdict_congr {c : VerifyM Bool} (h : SingleRun s c)
    (journal journal' : Journal) : verdict (c journal) = verdict (c journal') := by
  cases h with
  | refused => rfl
  | pair segwit initial unlocking locking =>
      cases hresult : Machine.validatePair (s.environment segwit initial) unlocking locking {} with
      | ok b n =>
          rw [runPair_ok journal hresult, runPair_ok journal' hresult]
          rfl
      | error e n =>
          rw [runPair_error journal hresult, runPair_error journal' hresult]
          rfl

/-! ## One attempt -/

/-- If a script with the right digest is provided, an attempt decides what the script does behind
the other pushes. -/
theorem verdict_attempt_of_provides (hlocking : scriptHash? locking = some l)
    (hprovides : Provides s.policy.maxStack unlocking before script)
    (hdigest : Hash.hash160 script = l.data) (journal : Journal) :
    verdict (s.attempt witness unlocking locking journal) =
      verdict (s.runResolved witness before (disassemble script) journal) := by
  obtain ⟨items, push, rfl, hbefore, hpush, hsizes, hroom⟩ := hprovides.parts
  rw [List.length_append, List.length_singleton] at hroom
  have htwo : (items.length : Int) + 2 ≤ s.policy.maxStack := by omega
  -- The run against the template is valid, so the script that is provided is run.
  have hmatches : ∃ n, Machine.validatePair (s.environment false []) (before ++ push) locking {} =
      .ok (decide (Hash.hash160 script = l.data)) n :=
    Machine.validatePair_scriptHash rfl htwo (hbefore.concat hpush) hsizes hlocking {}
  rw [decide_eq_true hdigest] at hmatches
  obtain ⟨n, hvalid⟩ := hmatches
  have hbase := runPair_ok journal hvalid
  rw [← runResolved_scriptHash witness hlocking] at hbase
  rw [attempt_scriptHash hlocking hbase, runRedeem]
  cases hpush with
  | data hdata =>
      rw [splitRedeem?_of_pushes hbefore hdata]
      exact (runResolved_singleRun ..).verdict_congr _ _
  | constant c =>
      rw [splitRedeem?_of_constant hbefore c]
      by_cases hc : c = .zero
      · subst hc
        have hempty : disassemble (Number.encode Constant.zero.value) = [] :=
          disassemble_eq_nil_iff.mpr rfl
        rw [if_pos rfl, hempty]
        exact (runResolved_singleRun ..).verdict_congr _ _
      · -- A number is refused without a run, and a run of it would fail.
        obtain ⟨t, htokens, -⟩ := disassemble_constant hc
        have hrun : s.runResolved witness before (disassemble (Number.encode c.value)) =
            s.runPair false [] before (disassemble (Number.encode c.value)) := by
          rw [htokens]
          rfl
        have hothers : ∀ item ∈ items, item.length ≤ maxItemSize :=
          fun item h ↦ hsizes item (List.mem_append_left _ h)
        have hfit : (items.length : Int) ≤ s.policy.maxStack := by omega
        have hfails : ∃ n, Machine.validatePair (s.environment false []) before
            (disassemble (Number.encode c.value)) {} = .ok false n :=
          Machine.validatePair_constant rfl hbefore hothers hfit hc {}
        obtain ⟨n, hfalse⟩ := hfails
        rw [if_neg hc, hrun, runPair_ok journal hfalse]
        rfl

/-- An attempt that succeeds has an unlocking script that provides a script with the right digest.
-/
theorem provides_of_attempt (hlocking : scriptHash? locking = some l) {bytes : Bytes}
    (h : s.attempt witness (disassemble bytes) locking journal = .ok true journal') :
    ∃ before script, Provides s.policy.maxStack (disassemble bytes) before script ∧
      Hash.hash160 script = l.data := by
  obtain ⟨b, between, hbase, hrest⟩ := Machine.ok_of_bind h
  cases b with
  | false => cases hrest
  | true =>
      rw [attempt_scriptHash hlocking hbase] at h
      have honly : isPushOnly (disassemble bytes) = true := by
        by_contra hother
        rw [runRedeem, splitRedeem?, if_neg hother] at h
        cases h
      rw [runResolved_scriptHash witness hlocking] at hbase
      obtain ⟨n, hvalid⟩ := exists_validatePair hbase
      rcases pushes_of_isPushOnly honly with ⟨pushed, hpushed⟩ | ⟨front, items, back, hsplit, hfront⟩
      · obtain ⟨hsizes, hroom, items, script, rfl, hdigest⟩ :=
          Machine.fits_of_validatePair_scriptHash rfl hpushed hlocking hvalid
        obtain ⟨before, hprovides⟩ := hpushed.provides hsizes hroom
        exact ⟨before, script, hprovides, hdigest⟩
      · rw [hsplit] at hvalid
        exact absurd hvalid (Machine.not_validatePair_of_reserved rfl hfront)

/-! ## Another attempt -/

/-- An attempt at a payment to a script without an unlocking script is refused. -/
theorem attempt_empty (hlocking : scriptHash? locking = some l) (hmax : 0 ≤ s.policy.maxStack)
    (journal : Journal) : ∃ journal', s.attempt witness [] locking journal = .ok false journal' := by
  obtain ⟨hlocks, -⟩ := eq_of_scriptHash hlocking
  have hfails : ∃ n, Machine.validatePair (s.environment false []) [] locking {} = .ok false n := by
    have hrun : ∃ reason n, Machine.run (s.environment false []) 0 (payToScriptHash l)
        (Machine.holding s.policy.maxStack [] [] (payToScriptHash l)) = .error (.failed reason) n :=
      Machine.run_scriptHash_empty l 0 [] (payToScriptHash l)
    obtain ⟨reason, n, hempty⟩ := hrun
    rw [hlocks]
    exact Machine.validatePair_of_run_failed rfl hmax hempty
  obtain ⟨n, hfalse⟩ := hfails
  rw [attempt, Machine.bind_apply, runResolved_scriptHash witness hlocking,
    runPair_ok journal hfalse]
  exact ⟨_, rfl⟩

/-- Attempting a payment to a script once more changes nothing. -/
theorem verdict_attempts (hlocking : scriptHash? locking = some l) (journal : Journal) :
    verdict (s.attempts witness unlocking locking journal) =
      verdict (s.attempt witness unlocking locking journal) := by
  rw [attempts, Machine.bind_apply]
  cases h : s.attempt witness unlocking locking journal with
  | error e between => rfl
  | ok b between =>
      cases b with
      | true => rfl
      | false =>
          dsimp only
          split
          · have hmax : 0 ≤ s.policy.maxStack := by
              obtain ⟨b, between', hbase, -⟩ := Machine.ok_of_bind h
              rw [runResolved_scriptHash witness hlocking] at hbase
              obtain ⟨n, hresult⟩ := exists_validatePair hbase
              exact Machine.room_of_validatePair rfl hresult
            obtain ⟨last, hempty⟩ := attempt_empty hlocking hmax between
            rw [hempty]
            rfl
          · rfl

/-- The spend under a policy that tries once more, or not. -/
def withRetry (s : Spend) (retry : Bool) : Spend :=
  { s with policy := { s.policy with permissiveRetry := retry } }

/-- Whether a failed spend is tried once more makes no difference to an attempt. -/
theorem attempt_withRetry (retry : Bool) :
    (s.withRetry retry).attempt witness unlocking locking =
      s.attempt witness unlocking locking := by
  have hpair (segwit : Bool) (initial : List Bytes) (unlocking locking : List Token) :
      (s.withRetry retry).runPair segwit initial unlocking locking =
        s.runPair segwit initial unlocking locking := by
    funext journal
    have henvironment : (s.withRetry retry).environment segwit initial =
        (s.environment segwit initial).withRetry retry := rfl
    have hsame : Machine.validatePair ((s.withRetry retry).environment segwit initial) unlocking
        locking {} = Machine.validatePair (s.environment segwit initial) unlocking locking {} := by
      rw [henvironment, Machine.validatePair_withRetry]
    cases hresult : Machine.validatePair (s.environment segwit initial) unlocking locking {} with
    | ok b n => rw [runPair_ok journal hresult, runPair_ok journal (hsame.trans hresult)]
    | error e n => rw [runPair_error journal hresult, runPair_error journal (hsame.trans hresult)]
  have hresolved (unlocking locking : List Token) :
      (s.withRetry retry).runResolved witness unlocking locking =
        s.runResolved witness unlocking locking := by
    simp only [runResolved, hpair]
  simp only [attempt, runRedeem, hresolved]

end Spend

/-! ## Verdicts on inputs -/

variable {tx : Transaction} {index : Int} {previous : TxOutput} {input : TxInput}
  {witness : Witness}

/-- A position that names an element is in front of the end. -/
theorem lt_of_elementAt? {α : Type} {l : List α} {i : Int} {a : α} (h : elementAt? l i = some a) :
    i < l.length := by
  by_contra hge
  have hposition : position? l.length i = none := by
    rw [position?, if_pos (by omega), if_neg hge]
  rw [elementAt?, hposition] at h
  cases h

/-- Verifying an input that was read attempts the spend with its unlocking script and its witness. -/
theorem verifyInput_of_input (hcoinbase : tx.isCoinbase = false)
    (hinput : elementAt? tx.inputs index = some input) (hstep : input.InStep)
    (hwitness : elementAt? tx.witness index = some witness) (policy : Policy)
    (previous : TxOutput) (journal : Journal) :
    verifyInput policy tx index previous journal =
      (⟨policy, tx, index, previous.amount⟩ : Spend).attempts witness
        (disassemble input.unlocking) previous.tokens journal := by
  have hfound : witnessOf tx index = pure witness := by
    rw [witnessOf, if_pos (lt_of_elementAt? hwitness), hwitness]
    rfl
  unfold TxInput.InStep at hstep
  rw [verifyInput_attempts hcoinbase, hinput, hfound, ← hstep]
  rfl

/-- Verifying an input that spends a payment to a script decides what one attempt does. -/
theorem verdict_verifyInput (hcoinbase : tx.isCoinbase = false)
    (hinput : elementAt? tx.inputs index = some input) (hstep : input.InStep)
    (hwitness : elementAt? tx.witness index = some witness) {l : Literal}
    (hlocking : scriptHash? previous.tokens = some l) (policy : Policy) (journal : Journal) :
    verdict (verifyInput policy tx index previous journal) =
      verdict ((⟨policy, tx, index, previous.amount⟩ : Spend).attempt witness
        (disassemble input.unlocking) previous.tokens journal) := by
  rw [verifyInput_of_input hcoinbase hinput hstep hwitness]
  exact Spend.verdict_attempts hlocking journal

/-- A payment to a script is spent if and only if the unlocking script provides a script with the
right digest and that script is satisfied, as a witness program if it is one, by what is in front of
it. If such a script is provided, the verdict is that on the script, errors included. Whether a
failed spend is tried once more makes no difference. -/
theorem verifyInput_scriptHash {disassembled : Bool} {bs : Bytes}
    (htx : Transaction.decode disassembled bs = .ok tx) (hcoinbase : tx.isCoinbase = false)
    (hinput : elementAt? tx.inputs index = some input)
    (hwitness : elementAt? tx.witness index = some witness) {digest : Bytes}
    (hdigest : digest.length = 20)
    (hlocking : previous.tokens = payToScriptHash (.ofBytes digest)) (policy : Policy)
    (journal : Journal) :
    (verdict (verifyInput policy tx index previous journal) = .ok true ↔
      ∃ before script, Provides policy.maxStack (disassemble input.unlocking) before script ∧
        Hash.hash160 script = digest ∧
        verdict ((⟨policy, tx, index, previous.amount⟩ : Spend).runResolved witness before
          (disassemble script) journal) = .ok true) ∧
    (∀ before script, Provides policy.maxStack (disassemble input.unlocking) before script →
      Hash.hash160 script = digest →
      verdict (verifyInput policy tx index previous journal) =
        verdict ((⟨policy, tx, index, previous.amount⟩ : Spend).runResolved witness before
          (disassemble script) journal)) ∧
    ∀ retry, verdict (verifyInput { policy with permissiveRetry := retry } tx index previous
      journal) = verdict (verifyInput policy tx index previous journal) := by
  have hlock : scriptHash? previous.tokens = some (.ofBytes digest) := by
    have hsize := Literal.hasSize_ofBytes digest
    rw [hdigest] at hsize
    rw [hlocking]
    exact if_pos hsize
  obtain ⟨-, -, hinStep⟩ := Transaction.encodable_of_decode htx
  have hstep : input.InStep := hinStep _ (mem_of_elementAt? hinput)
  have hverdict (policy : Policy) :=
    verdict_verifyInput hcoinbase hinput hstep hwitness hlock policy journal
  have hprovided : ∀ before script,
      Provides policy.maxStack (disassemble input.unlocking) before script →
      Hash.hash160 script = digest →
      verdict (verifyInput policy tx index previous journal) =
        verdict ((⟨policy, tx, index, previous.amount⟩ : Spend).runResolved witness before
          (disassemble script) journal) := by
    intro before script hprovides hscript
    rw [hverdict]
    exact Spend.verdict_attempt_of_provides hlock hprovides hscript journal
  refine ⟨⟨?_, ?_⟩, hprovided, ?_⟩
  · intro htrue
    rw [hverdict] at htrue
    obtain ⟨journal', hattempt⟩ := ok_of_verdict htrue
    obtain ⟨before, script, hprovides, hscript⟩ := Spend.provides_of_attempt hlock hattempt
    refine ⟨before, script, hprovides, hscript, ?_⟩
    rw [← hprovided before script hprovides hscript, hverdict]
    exact htrue
  · rintro ⟨before, script, hprovides, hscript, htrue⟩
    rw [hprovided before script hprovides hscript]
    exact htrue
  · intro retry
    rw [hverdict, hverdict]
    have hspend : (⟨{ policy with permissiveRetry := retry }, tx, index, previous.amount⟩ : Spend) =
        (⟨policy, tx, index, previous.amount⟩ : Spend).withRetry retry := rfl
    rw [hspend, Spend.attempt_withRetry]

/-- A transaction whose only input pushes the script `OP_1`. -/
def pushingTransaction : Transaction where
  inputs := [.ofFields (List.replicate 32 0x11) 0 [0x01, 0x51] 0xffffffff true]
  outputs := [⟨0, []⟩]
  witness := [[]]
  lockTime := 0
  version := 2
  segwit := false

/-- A payment to the script `OP_1`. -/
def pushedOutput : TxOutput :=
  ⟨0, [0xa9, 0x14] ++ Hash.hash160 [0x51] ++ [0x87]⟩

/-- The transaction is read from its wire form. -/
theorem decode_pushingTransaction :
    ∃ bs, Transaction.decode true bs = .ok pushingTransaction := by
  have hencodable : pushingTransaction.Encodable :=
    encodable_single ⟨by decide, by decide, by decide, by decide⟩ ⟨by decide, by decide⟩ false
  obtain ⟨bs, -, hdecode⟩ :=
    Transaction.decode_encode true hencodable (fun _ ↦ rfl) (.inr (.inl (List.cons_ne_nil _ _)))
  exact ⟨bs, hdecode⟩

/-- The output is a payment to a script. -/
theorem tokens_pushedOutput :
    pushedOutput.tokens = payToScriptHash (.ofBytes (Hash.hash160 [0x51])) := by
  have hlength := Hash.length_hash160 [0x51]
  have hwell : Instruction.WellFormed [.op (.stack (.hash .hash160)),
      .direct (Hash.hash160 [0x51]), .op (.stack (.inspect .equal))] :=
    .cons _ _ (.op _ nofun) (.cons _ _ (.direct _ (by omega) (by rw [hlength]; decide))
      (.cons _ _ (.op _ nofun) .nil))
  have htokens := Instruction.disassemble_flatMap_encode hwell
  have hbytes : pushedOutput.locking = [Instruction.op (.stack (.hash .hash160)),
      .direct (Hash.hash160 [0x51]), .op (.stack (.inspect .equal))].flatMap
        Instruction.encode := by
    simp only [List.flatMap_cons, List.flatMap_nil, Instruction.encode, hlength]
    rfl
  rw [← hbytes] at htokens
  exact htokens

/-- The transaction spends the output: the script that it pushes has the right digest and is satisfied
by nothing. -/
theorem verifyInput_scriptHash_pushed :
    (∃ bs, Transaction.decode true bs = .ok pushingTransaction) ∧
      pushingTransaction.isCoinbase = false ∧
      pushedOutput.tokens = payToScriptHash (.ofBytes (Hash.hash160 [0x51])) ∧
      verdict (verifyInput {} pushingTransaction 0 pushedOutput {}) = .ok true := by
  obtain ⟨bs, hdecode⟩ := decode_pushingTransaction
  have hunlocking : disassemble [0x01, 0x51] = [] ++ [Token.push [0x51]] := by
    have hwell : Instruction.WellFormed [.direct [0x51]] :=
      .cons _ _ (.direct _ (by decide) (by decide)) .nil
    exact Instruction.disassemble_flatMap_encode hwell
  have hscript : disassemble [0x51] = [.op (.stack (.constant (.small 0)))] :=
    Instruction.disassemble_opcode (o := .stack (.constant (.small 0))) nofun
  have hprovides : Provides 1000 (disassemble [0x01, 0x51]) [] [0x51] := by
    rw [hunlocking]
    exact ⟨rfl, by decide, [], [.push [0x51]], rfl, .nil, .data (.direct (.ofBytes [0x51])),
      by decide, by decide⟩
  refine ⟨⟨bs, hdecode⟩, rfl, tokens_pushedOutput, ?_⟩
  refine (verifyInput_scriptHash hdecode rfl rfl rfl (Hash.length_hash160 [0x51])
    tokens_pushedOutput {} {}).1.mpr ⟨[], [0x51], hprovides, rfl, ?_⟩
  rw [hscript]
  rfl

end Verification

end BitcoinSpend
