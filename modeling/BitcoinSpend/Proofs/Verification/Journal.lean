import BitcoinSpend.Proofs.Script.Machine.Barred
import BitcoinSpend.Proofs.Verification.Attempt

/-!
# Journals of a spend

Every run of a spend is entered into the journal with its result, so the journal says which runs a
verdict rests on. Read `Genuine` and `SingleRun` first. The main result is
`verifyInput_counts_no_barred`: no run with a barred locking script counts as a success.
-/

namespace BitcoinSpend.Verification

open Script

/-- The journal behind an outcome. -/
def journalOf {α : Type} : EStateM.Result SpendError Journal α → Journal
  | .ok _ journal => journal
  | .error _ journal => journal

/-- A run that is entered as true only if its pair of scripts is valid. -/
def Run.Genuine (r : Run) : Prop :=
  r.result? = some true →
    ∃ env n, Machine.validatePair env r.unlocking r.locking {} = .ok true n

/-- A genuine run with a barred locking script is no success. -/
theorem Run.Genuine.not_barred {r : Run} (h : r.Genuine) (hresult : r.result? = some true) :
    ¬Barred r.locking := by
  obtain ⟨env, n, hvalid⟩ := h hresult
  exact fun hbarred ↦ Machine.not_validatePair_of_barred hbarred hvalid

/-! ## Entries -/

/-- A computation that only adds runs with a property to the journal. -/
def Enters {α : Type} (P : Run → Prop) (c : VerifyM α) : Prop :=
  ∀ journal, ∃ runs, (journalOf (c journal)).runs = runs ++ journal.runs ∧ ∀ r ∈ runs, P r

namespace Enters

variable {α β : Type} {P : Run → Prop}

/-- What has a property has a weaker one. -/
theorem mono {Q : Run → Prop} {c : VerifyM α} (h : Enters P c) (hPQ : ∀ r, P r → Q r) :
    Enters Q c := by
  intro journal
  obtain ⟨runs, hruns, hentered⟩ := h journal
  exact ⟨runs, hruns, fun r hr ↦ hPQ r (hentered r hr)⟩

/-- A computation that leaves the journal as it is adds nothing. -/
theorem of_unchanged {c : VerifyM α} (h : ∀ journal, journalOf (c journal) = journal) :
    Enters P c :=
  fun journal ↦ ⟨[], by rw [h]; rfl, fun _ hr ↦ absurd hr List.not_mem_nil⟩

/-- Returning a value adds nothing. -/
theorem pure (a : α) : Enters P (Pure.pure a) :=
  of_unchanged fun _ ↦ rfl

/-- What computations one after another add is what each of them adds. -/
theorem bind {c : VerifyM α} {f : α → VerifyM β} (hc : Enters P c)
    (hf : ∀ a, Enters P (f a)) : Enters P (c >>= f) := by
  intro journal
  obtain ⟨runs, hruns, hentered⟩ := hc journal
  rw [Machine.bind_apply]
  cases h : c journal with
  | error e journal' =>
      rw [h] at hruns
      exact ⟨runs, hruns, hentered⟩
  | ok a journal' =>
      rw [h] at hruns
      obtain ⟨more, hmore, hothers⟩ := hf a journal'
      refine ⟨more ++ runs, ?_, fun r hr ↦ ?_⟩
      · change (journalOf (f a journal')).runs = _
        change journal'.runs = _ at hruns
        rw [hmore, hruns, List.append_assoc]
      · exact (List.mem_append.mp hr).elim (hothers r) (hentered r)

/-- A choice adds what its sides add. -/
theorem ite {p : Prop} [Decidable p] {c d : VerifyM α} (hc : Enters P c)
    (hd : Enters P d) : Enters P (if p then c else d) := by
  split
  · exact hc
  · exact hd

/-- Asking for an element adds nothing. -/
theorem require (a? : Option α) : Enters P (Verification.require a?) := by
  cases a? with
  | none => exact of_unchanged fun _ ↦ rfl
  | some a => exact .pure a

end Enters

namespace Spend

variable {s : Spend} {witness : Witness} {unlocking locking : List Token} {initial : List Bytes}
  {segwit : Bool} {journal journal' : Journal}

/-! ## Single runs -/

/-- A computation that refuses a spend without running anything, or runs one pair of scripts. -/
inductive SingleRun (s : Spend) : VerifyM Bool → Prop where
  | refused : SingleRun s (pure false)
  | pair (segwit : Bool) (initial : List Bytes) (unlocking locking : List Token) :
      SingleRun s (s.runPair segwit initial unlocking locking)

/-- A locking script is refused or run once, as it is or as the script that it commits to. -/
theorem runResolved_singleRun (s : Spend) (witness : Witness) (unlocking locking : List Token) :
    SingleRun s (s.runResolved witness unlocking locking) := by
  unfold runResolved
  split
  · split
    · exact .refused
    · exact .pair ..
  · split
    · exact .refused
    · split
      · exact .refused
      · exact .pair ..
  · exact .pair ..

/-- A script that is pushed is refused or run once. -/
theorem runRedeem_singleRun (s : Spend) (witness : Witness) (unlocking : List Token) :
    SingleRun s (s.runRedeem witness unlocking) := by
  unfold runRedeem
  split
  · exact runResolved_singleRun ..
  · exact .refused

namespace SingleRun

variable {c : VerifyM Bool}

/-- A single run is entered as it is. -/
theorem entersGenuine (h : SingleRun s c) : Enters Run.Genuine c := by
  cases h with
  | refused => exact .pure false
  | pair segwit initial unlocking locking =>
      intro journal
      cases hresult : Machine.validatePair (s.environment segwit initial) unlocking locking {} with
      | ok result n =>
          rw [runPair_ok journal hresult]
          refine ⟨[_], rfl, fun r hr htrue ↦ ?_⟩
          obtain rfl := List.mem_singleton.mp hr
          cases htrue
          exact ⟨_, n, hresult⟩
      | error e n =>
          rw [runPair_error journal hresult]
          refine ⟨[_], rfl, fun r hr htrue ↦ ?_⟩
          obtain rfl := List.mem_singleton.mp hr
          cases htrue

/-- If the answer is true, one run was entered, and as true. -/
theorem exists_run (h : SingleRun s c) (htrue : c journal = .ok true journal') :
    ∃ r, journal'.runs = r :: journal.runs ∧ r.result? = some true := by
  cases h with
  | refused => cases htrue
  | pair segwit initial unlocking locking =>
      cases hresult : Machine.validatePair (s.environment segwit initial) unlocking locking {} with
      | ok result n =>
          rw [runPair_ok journal hresult] at htrue
          cases htrue
          exact ⟨_, rfl, rfl⟩
      | error e n =>
          rw [runPair_error journal hresult] at htrue
          cases htrue

end SingleRun

/-! ## Attempts -/

/-- An attempt only adds genuine runs. -/
theorem attempt_entersGenuine : Enters Run.Genuine (s.attempt witness unlocking locking) := by
  refine .bind (runResolved_singleRun ..).entersGenuine fun b ↦ .ite (.ite ?_ (.pure _)) (.pure _)
  exact (runRedeem_singleRun ..).entersGenuine

/-- The number of runs that have to succeed: one, and one more for a payment to a script. -/
def runsNeeded (locking : List Token) : Nat :=
  if (scriptHash? locking).isSome then 2 else 1

/-- An attempt that succeeds has entered as many successful runs as are needed, and nothing else. -/
theorem attempt_counts (h : s.attempt witness unlocking locking journal = .ok true journal') :
    ∃ counted, journal'.runs = counted ++ journal.runs ∧ counted.length = runsNeeded locking ∧
      ∀ r ∈ counted, r.result? = some true := by
  obtain ⟨b, between, hbase, h⟩ := Machine.ok_of_bind h
  cases b with
  | false => cases h
  | true =>
      obtain ⟨base, hruns, hresult⟩ := (runResolved_singleRun ..).exists_run hbase
      unfold runsNeeded
      cases hlock : (scriptHash? locking).isSome with
      | false =>
          rw [hlock] at h
          cases h
          refine ⟨[base], hruns, rfl, fun r hr ↦ ?_⟩
          obtain rfl := List.mem_singleton.mp hr
          exact hresult
      | true =>
          rw [hlock] at h
          obtain ⟨redeem, hmore, hredeem⟩ := (runRedeem_singleRun ..).exists_run h
          refine ⟨[redeem, base], by rw [hmore, hruns]; rfl, rfl, fun r hr ↦ ?_⟩
          rcases List.mem_cons.mp hr with rfl | hr
          · exact hredeem
          · obtain rfl := List.mem_singleton.mp hr
            exact hresult

/-- Both attempts at a spend: as it is, and, where the policy allows it, once more without the
unlocking script. -/
def attempts (s : Spend) (witness : Witness) (unlocking locking : List Token) : VerifyM Bool := do
  let result ← s.attempt witness unlocking locking
  if !result && s.policy.permissiveRetry && !unlocking.isEmpty then s.attempt witness [] locking
  else return result

/-- Both attempts only add genuine runs. -/
theorem attempts_entersGenuine : Enters Run.Genuine (s.attempts witness unlocking locking) :=
  .bind attempt_entersGenuine fun _ ↦ .ite attempt_entersGenuine (.pure _)

/-- If one of both attempts succeeds, the runs that were entered last are as many successful ones as
are needed. -/
theorem attempts_counts (h : s.attempts witness unlocking locking journal = .ok true journal') :
    ∃ counted earlier, journal'.runs = counted ++ earlier ++ journal.runs ∧
      counted.length = runsNeeded locking ∧ ∀ r ∈ counted, r.result? = some true := by
  obtain ⟨result, between, hfirst, h⟩ := Machine.ok_of_bind h
  cases result with
  | true =>
      cases h
      obtain ⟨counted, hruns, hlength, htrue⟩ := attempt_counts hfirst
      exact ⟨counted, [], by rw [hruns, List.append_nil], hlength, htrue⟩
  | false =>
      have hgenuine : Enters Run.Genuine (s.attempt witness unlocking locking) := attempt_entersGenuine
      obtain ⟨earlier, hearlier, -⟩ := hgenuine journal
      rw [hfirst] at hearlier
      change between.runs = _ at hearlier
      split at h
      · obtain ⟨counted, hruns, hlength, htrue⟩ := attempt_counts h
        exact ⟨counted, earlier, by rw [hruns, hearlier, List.append_assoc], hlength, htrue⟩
      · cases h

end Spend

/-! ## Verdicts -/

variable {policy : Policy} {tx : Transaction} {index : Int} {previous : TxOutput}
  {journal journal' : Journal}

/-- The witness of an input; a missing one is empty. -/
def witnessOf (tx : Transaction) (index : Int) : VerifyM Witness :=
  if index < tx.witness.length then require (elementAt? tx.witness index) else pure []

/-- Verifying an input that is no coinbase attempts the spend of the input. -/
theorem verifyInput_attempts (hcoinbase : tx.isCoinbase = false) :
    verifyInput policy tx index previous = (do
      let input ← require (elementAt? tx.inputs index)
      let witness ← witnessOf tx index
      (⟨policy, tx, index, previous.amount⟩ : Spend).attempts witness
        (input.tokens?.getD (disassemble input.unlocking)) previous.tokens) := by
  rw [verifyInput, hcoinbase, if_neg Bool.false_ne_true]
  congr 1
  funext input
  unfold witnessOf
  dsimp only
  split <;> rfl

/-- Asking for an element leaves the journal as it is. -/
theorem eq_of_require {α : Type} {a? : Option α} {a : α} (h : require a? journal = .ok a journal') :
    journal' = journal := by
  cases a? with
  | none => cases h
  | some b =>
      cases h
      rfl

/-- Asking for a witness leaves the journal as it is. -/
theorem eq_of_witnessOf {witness : Witness} (h : witnessOf tx index journal = .ok witness journal') :
    journal' = journal := by
  unfold witnessOf at h
  split at h
  · exact eq_of_require h
  · cases h
    rfl

/-- A coinbase adds no runs. -/
theorem Enters.coinbase {P : Run → Prop} (h : tx.isCoinbase = true) (policy : Policy) (index : Int)
    (previous : TxOutput) : Enters P (verifyInput policy tx index previous) := by
  refine .of_unchanged fun journal ↦ ?_
  rw [verifyInput_coinbase h]
  split <;> rfl

/-- Verifying an input only adds genuine runs. -/
theorem verifyInput_entersGenuine (policy : Policy) (tx : Transaction) (index : Int)
    (previous : TxOutput) : Enters Run.Genuine (verifyInput policy tx index previous) := by
  cases hcoinbase : tx.isCoinbase with
  | true =>
      exact .coinbase hcoinbase policy index previous
  | false =>
      rw [verifyInput_attempts hcoinbase]
      refine .bind (.require _) fun input ↦ .bind ?_ fun witness ↦ ?_
      · exact .ite (.require _) (.pure _)
      · exact Spend.attempts_entersGenuine

/-- A verdict that is true rests on the runs that were entered last: as many as are needed, all of
them successful. -/
theorem verifyInput_counts (hcoinbase : tx.isCoinbase = false)
    (h : verifyInput policy tx index previous journal = .ok true journal') :
    ∃ counted earlier, journal'.runs = counted ++ earlier ++ journal.runs ∧
      counted.length = Spend.runsNeeded previous.tokens ∧ ∀ r ∈ counted, r.result? = some true := by
  rw [verifyInput_attempts hcoinbase] at h
  obtain ⟨input, _, hinput, h⟩ := Machine.ok_of_bind h
  obtain ⟨witness, _, hwitness, h⟩ := Machine.ok_of_bind h
  rw [eq_of_witnessOf hwitness, eq_of_require hinput] at h
  exact Spend.attempts_counts h

/-- A barred locking script is never satisfied, and a script that ends in a truncated push is barred.
So no run that verifying an input enters is successful with such a locking script, and a verdict
that is true, unless it is that on a coinbase, rests on successful runs with others: one run, or two
for a payment to a script. -/
theorem verifyInput_counts_no_barred :
    (∀ (env : Environment) (unlocking locking : List Token) (m n : Machine), Barred locking →
        Machine.validatePair env unlocking locking m ≠ .ok true n) ∧
      (∀ (script bytes : Bytes) (front : List Instruction),
        Instruction.parse script = front ++ [.truncated bytes] → Barred (disassemble script)) ∧
      ∀ (policy : Policy) (tx : Transaction) (index : Int) (previous : TxOutput)
        (journal : Journal), ∃ runs,
        (journalOf (verifyInput policy tx index previous journal)).runs = runs ++ journal.runs ∧
          (∀ r ∈ runs, Barred r.locking → r.result? ≠ some true) ∧
          ∀ journal', verifyInput policy tx index previous journal = .ok true journal' →
            tx.isCoinbase = false →
            ∃ counted, counted <+: runs ∧ counted.length = Spend.runsNeeded previous.tokens ∧
              ∀ r ∈ counted, r.result? = some true ∧ ¬Barred r.locking := by
  refine ⟨fun _ _ _ _ _ ↦ Machine.not_validatePair_of_barred, fun _ _ _ ↦ barred_of_truncated, ?_⟩
  intro policy tx index previous journal
  obtain ⟨runs, hruns, hgenuine⟩ := verifyInput_entersGenuine policy tx index previous journal
  refine ⟨runs, hruns, fun r hr hbarred hresult ↦ (hgenuine r hr).not_barred hresult hbarred, ?_⟩
  intro journal' htrue hcoinbase
  obtain ⟨counted, earlier, hcounted, hlength, hresults⟩ := verifyInput_counts hcoinbase htrue
  rw [htrue] at hruns
  change journal'.runs = _ at hruns
  rw [hcounted] at hruns
  have hprefix : counted ++ earlier = runs := List.append_cancel_right hruns
  refine ⟨counted, ⟨earlier, hprefix⟩, hlength, fun r hr ↦ ⟨hresults r hr, ?_⟩⟩
  have hmem : r ∈ runs := hprefix ▸ List.mem_append_left earlier hr
  exact (hgenuine r hmem).not_barred (hresults r hr)

/-- A transaction whose only input has no unlocking script. -/
def bareTransaction : Transaction where
  inputs := [.ofFields (List.replicate 32 0x11) 0 [] 0xffffffff true]
  outputs := [⟨0, []⟩]
  witness := [[]]
  lockTime := 0
  version := 2
  segwit := false

/-- An output that anyone can spend. -/
def openOutput : TxOutput :=
  ⟨0, [0x51]⟩

/-- The output asks for nothing. -/
theorem tokens_openOutput : openOutput.tokens = [.op (.stack (.constant (.small 0)))] :=
  Instruction.disassemble_opcode (o := .stack (.constant (.small 0))) nofun

/-- The output is spent without an unlocking script. -/
theorem verifyInput_openOutput (hcoinbase : tx.isCoinbase = false) {input : TxInput}
    (hinput : elementAt? tx.inputs index = some input) (hstep : input.InStep)
    (hunlocking : input.unlocking = []) {witness : Witness}
    (hwitness : witnessOf tx index = pure witness) :
    ∃ journal, verifyInput {} tx index openOutput {} = .ok true journal := by
  have htokens : input.tokens?.getD (disassemble input.unlocking) = [] :=
    hstep.trans (disassemble_eq_nil_iff.mpr hunlocking)
  rw [verifyInput_attempts hcoinbase, hinput, hwitness, tokens_openOutput]
  simp only [require, pure_bind, htokens]
  exact ⟨_, rfl⟩

/-- A disabled opcode in a branch that is not taken, a push of five bytes with only one behind it, and
a verdict that rests on one run. -/
theorem verifyInput_counts_no_barred_openOutput :
    (∀ n, Machine.validatePair {} [.op (.stack (.constant (.small 0)))]
        [.op (.stack (.constant .zero)), .op (.branch .whenTrue), .op (.disabled .cat),
          .op (.branch .close)] {} ≠ .ok true n) ∧
      Barred (disassemble [0x05, 0x01]) ∧
      bareTransaction.isCoinbase = false ∧
      ∃ journal, verifyInput {} bareTransaction 0 openOutput {} = .ok true journal ∧
        ∃ counted, counted <+: journal.runs ∧ counted.length = 1 ∧
          ∀ r ∈ counted, r.result? = some true ∧ ¬Barred r.locking := by
  obtain ⟨hnever, htruncated, hverdicts⟩ := verifyInput_counts_no_barred
  have hwell : Instruction.WellFormed [.truncated [0x05, 0x01]] :=
    .truncated _ (.direct 0x05 [0x01] (by decide) (by decide) (by decide))
  have hparse : Instruction.parse [0x05, 0x01] = [] ++ [.truncated [0x05, 0x01]] :=
    Instruction.parse_flatMap_encode hwell
  refine ⟨fun n ↦ hnever _ _ _ _ _ (.contains (.op (.disabled .cat)) (by simp) rfl),
    htruncated _ _ _ hparse, rfl, ?_⟩
  obtain ⟨journal, htrue⟩ : ∃ journal,
      verifyInput {} bareTransaction 0 openOutput {} = .ok true journal :=
    verifyInput_openOutput rfl rfl (TxInput.inStep_ofFields ..) rfl rfl
  obtain ⟨runs, hruns, -, hcounted⟩ := hverdicts {} bareTransaction 0 openOutput {}
  obtain ⟨counted, hprefix, hlength, hall⟩ := hcounted journal htrue rfl
  rw [htrue] at hruns
  change journal.runs = runs ++ [] at hruns
  rw [List.append_nil] at hruns
  have hone : Spend.runsNeeded openOutput.tokens = 1 := by
    rw [tokens_openOutput]
    rfl
  exact ⟨journal, htrue, counted, hruns ▸ hprefix, hone ▸ hlength, hall⟩

end BitcoinSpend.Verification
