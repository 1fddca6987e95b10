import BitcoinSpend.Proofs.Script.Machine.ItemSize
import BitcoinSpend.Proofs.Verification.Isolation

/-!
# The size of items in spends

A valid run of a spend keeps all items on its stacks within the size that a script may push, except
for the items of a witness: these are put on the stack before the run without a look at their size.
Read `Run.Traced` first. The main result is `verifyInput_itemSize`, and
`not_withinLimit_of_oversized` is a spend in which the limit is not kept.
-/

namespace BitcoinSpend.Verification

open Script

/-- A run of a spend that is entered as true only if its pair of scripts, of moderate length, is
valid. -/
def Run.Traced (s : Spend) (witness : Witness) (r : Run) : Prop :=
  r.result? = some true → ∃ initial, Primed witness r.segwit initial ∧
    (r.unlocking ++ r.locking).length < 2 ^ 65 ∧
    Machine.validatePair (s.environment r.segwit initial) r.unlocking r.locking {} =
      .ok true r.machine

namespace Spend

variable {s : Spend} {witness : Witness} {unlocking locking : List Token} {initial : List Bytes}
  {segwit : Bool}

/-- A pair of scripts is entered with the items that it begins with. -/
theorem runPair_traced (hprimed : Primed witness segwit initial)
    (hlength : (unlocking ++ locking).length < 2 ^ 65) :
    Enters (Run.Traced s witness) (s.runPair segwit initial unlocking locking) := by
  intro journal
  cases hresult : Machine.validatePair (s.environment segwit initial) unlocking locking {} with
  | ok result n =>
      rw [runPair_ok journal hresult]
      refine ⟨[_], rfl, fun r hr htrue ↦ ?_⟩
      obtain rfl := List.mem_singleton.mp hr
      cases htrue
      exact ⟨initial, hprimed, hlength, hresult⟩
  | error e n =>
      rw [runPair_error journal hresult]
      refine ⟨[_], rfl, fun r hr htrue ↦ ?_⟩
      obtain rfl := List.mem_singleton.mp hr
      cases htrue

/-- A locking script is run as it is, or as the script that it commits to. -/
theorem runResolved_traced (hwitness : witness.Encodable) (hunlocking : unlocking.length < 2 ^ 64)
    (hlocking : locking.length < 2 ^ 64) :
    Enters (Run.Traced s witness) (s.runResolved witness unlocking locking) := by
  unfold runResolved
  split
  · next key hkey =>
      have hlength : ([] ++ payToKeyHash (.literal key)).length = 5 := rfl
      exact .ite (.pure _) (runPair_traced .key (by omega))
  · split
    · exact .pure _
    · next script hlast =>
        have hscript := hwitness.items script (List.mem_of_getLast? hlast)
        have hle := length_disassemble_le script
        refine .ite (.pure _) (runPair_traced .script ?_)
        rw [List.nil_append]
        omega
  · refine runPair_traced .none ?_
    rw [List.length_append]
    omega

/-- A script that is pushed is run with what is in front of it. -/
theorem runRedeem_traced (hwitness : witness.Encodable) {size : Nat}
    (hexecutable : Executable size unlocking) (hsize : size < 2 ^ 63)
    (hunlocking : unlocking.length < 2 ^ 64) :
    Enters (Run.Traced s witness) (s.runRedeem witness unlocking) := by
  unfold runRedeem
  split
  · next redeem before hsplit =>
      have hbefore := length_of_splitRedeem? hsplit
      obtain ⟨-, rfl | ⟨script, hscript, rfl, -⟩⟩ := splitRedeem?_parts hexecutable hsplit
      · exact runResolved_traced hwitness (by omega) (by decide)
      · have hle := length_disassemble_le script
        exact runResolved_traced hwitness (by omega) (by omega)
  · exact .pure _

/-- An attempt. -/
theorem attempt_traced (hwitness : witness.Encodable) {size : Nat}
    (hexecutable : Executable size unlocking) (hsize : size < 2 ^ 63)
    (hunlocking : unlocking.length < 2 ^ 64) (hlocking : locking.length < 2 ^ 64) :
    Enters (Run.Traced s witness) (s.attempt witness unlocking locking) := by
  refine .bind (runResolved_traced hwitness hunlocking hlocking) fun _ ↦ .ite ?_ (.pure _)
  exact .ite (runRedeem_traced hwitness hexecutable hsize hunlocking) (.pure _)

/-- Both attempts. -/
theorem attempts_traced (hwitness : witness.Encodable) {size : Nat}
    (hexecutable : Executable size unlocking) (hsize : size < 2 ^ 63)
    (hunlocking : unlocking.length < 2 ^ 64) (hlocking : locking.length < 2 ^ 64) :
    Enters (Run.Traced s witness) (s.attempts witness unlocking locking) := by
  refine .bind (attempt_traced hwitness hexecutable hsize hunlocking hlocking) fun _ ↦ .ite ?_
    (.pure _)
  exact attempt_traced hwitness (.nil 0) (by decide) (by decide) hlocking

end Spend

/-! ## Inputs -/

variable {tx : Transaction} {previous : TxOutput}

/-- The witness of an input of a whole transaction is encodable, if there is one. -/
theorem witnessOf_cases (htx : Whole tx) (index : Int) :
    (∃ witness : Witness, witnessOf tx index = pure witness ∧ witness.Encodable) ∨
      witnessOf tx index = throw .noSuchIndex := by
  unfold witnessOf
  split
  · cases hwitness : elementAt? tx.witness index with
    | none => exact .inr rfl
    | some witness =>
        exact .inl ⟨witness, rfl, htx.encodable.witness _ (mem_of_elementAt? hwitness)⟩
  · exact .inl ⟨[], rfl, .nil⟩

/-- Verifying an input enters runs that begin with the items of its witness. -/
theorem verifyInput_traced (htx : Whole tx) (hprevious : previous.locking.length < 2 ^ 63)
    (policy : Policy) (index : Int) :
    Enters (fun r ↦ ∃ witness : Witness, witnessOf tx index = pure witness ∧ witness.Encodable ∧
        r.Traced ⟨policy, tx, index, previous.amount⟩ witness)
      (verifyInput policy tx index previous) := by
  cases hcoinbase : tx.isCoinbase with
  | true =>
      exact .coinbase hcoinbase policy index previous
  | false =>
      rw [verifyInput_attempts hcoinbase]
      cases hinput : elementAt? tx.inputs index with
      | none => exact .of_unchanged fun _ ↦ rfl
      | some input =>
          rcases witnessOf_cases htx index with ⟨witness, hwitness, hencodable⟩ | hnone
          · have hmem := mem_of_elementAt? hinput
            have htokens := htx.inStep input hmem
            have hunlocking := (htx.encodable.inputs input hmem).unlocking
            have hle := length_disassemble_le input.unlocking
            have hlocking : previous.tokens.length ≤ _ := length_disassemble_le previous.locking
            unfold TxInput.InStep at htokens
            simp only [require, pure_bind, htokens, hwitness]
            refine (Spend.attempts_traced hencodable (executable_disassemble input.unlocking)
              hunlocking (by omega) (by omega)).mono fun r hr ↦ ⟨witness, rfl, hencodable, hr⟩
          · simp only [require, pure_bind, hnone]
            exact .of_unchanged fun _ ↦ rfl

/-- In every run with the result true that verifying an input enters, each item on the stacks, at
each place, is one of those that the run began with or is not longer than a script may push. So the
limit is kept in the run if and only if it is kept by the items that it began with. There are none
outside segwit; in segwit they are items of the witness, of any length. -/
theorem verifyInput_itemSize {disassembled : Bool} {bs : Bytes}
    (htx : Transaction.decode disassembled bs = .ok tx)
    (hprevious : previous.locking.length < 2 ^ 63) (policy : Policy) (index : Int)
    (journal : Journal) :
    ∃ runs, (journalOf (verifyInput policy tx index previous journal)).runs =
        runs ++ journal.runs ∧
      ∀ r ∈ runs, r.result? = some true → ∃ witness initial,
        witnessOf tx index = pure witness ∧ Primed witness r.segwit initial ∧
        let env := (⟨policy, tx, index, previous.amount⟩ : Spend).environment r.segwit initial
        Machine.validatePair env r.unlocking r.locking {} = .ok true r.machine ∧
          (∀ place, ∀ item ∈ (Machine.pairAt env r.unlocking r.locking place).items,
            item.length ≤ maxItemSize ∨ item ∈ initial) ∧
          ((∀ place, Machine.WithinLimit (Machine.pairAt env r.unlocking r.locking place)) ↔
            ∀ item ∈ initial, item.length ≤ maxItemSize) := by
  obtain ⟨runs, hruns, htraced⟩ :=
    verifyInput_traced (whole_of_decode htx) hprevious policy index journal
  refine ⟨runs, hruns, fun r hr htrue ↦ ?_⟩
  obtain ⟨witness, hwitness, hencodable, hr⟩ := htraced r hr
  obtain ⟨initial, hprimed, hlength, hvalid⟩ := hr htrue
  obtain ⟨hinitial, hcount⟩ := hprimed.bounds hencodable
  have hcap : initial.length + Machine.Confines.stepGrowth * (r.unlocking ++ r.locking).length <
      2 ^ 128 := by
    rw [Machine.Confines.stepGrowth]
    omega
  exact ⟨witness, initial, hwitness, hprimed, hvalid,
    Machine.permitted_of_validatePair hinitial hcap hvalid,
    Machine.withinLimit_iff_of_validatePair hinitial hcap hvalid⟩

/-- An item that is longer than a script may push. -/
def oversizedItem : Bytes :=
  List.replicate 521 0x00

/-- A transaction whose only input has the script `OP_1` as its witness, and the item below it. -/
def oversizedTransaction : Transaction :=
  { witnessTransaction with witness := [[oversizedItem, [0x51]]] }

/-- The transaction is read from its wire form. -/
theorem decode_oversizedTransaction :
    ∃ bs, Transaction.decode true bs = .ok oversizedTransaction := by
  have hitems : ∀ item ∈ [oversizedItem, [0x51]], item.length < 2 ^ 63 := by
    intro item hitem
    rcases List.mem_cons.mp hitem with rfl | hitem
    · exact (List.length_replicate (n := 521)).trans_lt (by decide)
    · obtain rfl := List.mem_singleton.mp hitem
      decide
  have hencodable : oversizedTransaction.Encodable :=
    encodable_single ⟨by decide, by decide, by decide, by decide⟩ ⟨by decide, hitems⟩ true
  obtain ⟨bs, -, hdecode⟩ := Transaction.decode_encode true hencodable (fun _ ↦ rfl) (.inl rfl)
  exact ⟨bs, hdecode⟩

/-- The spend is verified: its run is valid, and is entered. -/
theorem exists_verifyInput_oversized :
    ∃ n, Machine.validatePair
        ((⟨{}, oversizedTransaction, 0, 0⟩ : Spend).environment true [oversizedItem]) []
        (disassemble [0x51]) {} = .ok true n ∧
      verifyInput {} oversizedTransaction 0 witnessOutput {} =
        .ok true { runs := [⟨true, [], disassemble [0x51], n, some true⟩] } := by
  have hscript : disassemble [0x51] = [.op (.stack (.constant (.small 0)))] :=
    Instruction.disassemble_opcode (o := .stack (.constant (.small 0))) nofun
  have hvalid : ∃ n, Machine.validatePair
      ((⟨{}, oversizedTransaction, 0, 0⟩ : Spend).environment true [oversizedItem]) []
      (disassemble [0x51]) {} = .ok true n := by
    rw [hscript]
    exact ⟨_, rfl⟩
  obtain ⟨n, hrun⟩ := hvalid
  obtain ⟨bs, hdecode⟩ := decode_oversizedTransaction
  have hsize := Hash.length_sha256 [0x51]
  have hwitness : elementAt? oversizedTransaction.witness 0 =
      some ([oversizedItem] ++ [[0x51]]) := rfl
  have hlocking : witnessOutput.locking = programLocking (Hash.sha256 [0x51]) := rfl
  refine ⟨n, hrun, ?_⟩
  rw [verifyInput_program hdecode rfl rfl hwitness (.inr hsize) hlocking, if_pos (.inl rfl),
    Spend.runResolved_script _ _ hsize, if_pos rfl]
  exact Spend.runPair_ok {} hrun

/-- In the run of the spend, each item above the limit is one of the witness. -/
theorem verifyInput_itemSize_oversized :
    (∃ bs, Transaction.decode true bs = .ok oversizedTransaction) ∧
      witnessOutput.locking.length < 2 ^ 63 ∧
      ∃ r, (journalOf (verifyInput {} oversizedTransaction 0 witnessOutput {})).runs = [r] ∧
        r.result? = some true ∧ ∃ witness initial,
          witnessOf oversizedTransaction 0 = pure witness ∧ Primed witness r.segwit initial ∧
          ∀ place, ∀ item ∈ (Machine.pairAt ((⟨{}, oversizedTransaction, 0, 0⟩ : Spend).environment
            r.segwit initial) r.unlocking r.locking place).items,
            item.length ≤ maxItemSize ∨ item ∈ initial := by
  obtain ⟨bs, hdecode⟩ := decode_oversizedTransaction
  obtain ⟨n, -, hverdict⟩ := exists_verifyInput_oversized
  have hlength : witnessOutput.locking.length < 2 ^ 63 := by
    rw [witnessOutput, programLocking, List.length_cons, List.length_cons, Hash.length_sha256]
    decide
  obtain ⟨runs, hruns, hitems⟩ := verifyInput_itemSize hdecode hlength {} 0 {}
  rw [hverdict] at hruns ⊢
  have hone : [⟨true, [], disassemble [0x51], n, some true⟩] = runs :=
    hruns.trans (List.append_nil runs)
  subst hone
  obtain ⟨witness, initial, hwitness, hprimed, -, hpermitted, -⟩ :=
    hitems _ List.mem_cons_self rfl
  exact ⟨⟨bs, hdecode⟩, hlength, _, rfl, rfl, witness, initial, hwitness, hprimed, hpermitted⟩

/-- With an item of the witness above the limit the input is verified all the same: its run is valid
and begins with that item. -/
theorem not_withinLimit_of_oversized :
    (∃ bs, Transaction.decode true bs = .ok oversizedTransaction) ∧
      oversizedTransaction.isCoinbase = false ∧
      ∃ r journal, verifyInput {} oversizedTransaction 0 witnessOutput {} = .ok true journal ∧
        journal.runs = [r] ∧ r.result? = some true ∧
        let env := (⟨{}, oversizedTransaction, 0, 0⟩ : Spend).environment true [oversizedItem]
        Machine.validatePair env r.unlocking r.locking {} = .ok true r.machine ∧
          ¬∀ place, Machine.WithinLimit (Machine.pairAt env r.unlocking r.locking place) := by
  obtain ⟨n, hrun, hverdict⟩ := exists_verifyInput_oversized
  refine ⟨decode_oversizedTransaction, rfl, _, _, hverdict, rfl, rfl, hrun, fun hwithin ↦ ?_⟩
  have hlong : oversizedItem.length ≤ maxItemSize := hwithin 0 _ List.mem_cons_self
  have hlength : oversizedItem.length = 521 := List.length_replicate
  exact absurd (hlength ▸ hlong) (by decide)

end BitcoinSpend.Verification
