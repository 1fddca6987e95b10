import BitcoinSpend.Proofs.Verification.Redeem
import BitcoinSpend.Proofs.Verification.Run

/-!
# Attempts at a spend

An attempt runs the scripts of a spend and, for a payment to a script, the script that is pushed as
well. Read `Wrapped` first: it says when that script is a crowded witness program. The main results
are `Regular.attempt_decides`, `attempt_overflows_of_crowded` and `attempt_overflows_of_wrapped`.
-/

namespace BitcoinSpend.Verification

open Script

/-- A payment to a script that is a crowded witness program, and a single push of that script. -/
inductive Wrapped (maxStack : Int) (witness : Witness) (unlocking locking : List Token) : Prop where
  | intro (l : Literal) (redeem : Bytes) : scriptHash? locking = some l →
      SinglePush unlocking redeem → Hash.hash160 redeem = l.data → 2 ≤ maxStack →
      Crowded maxStack witness (disassemble redeem) →
      Wrapped maxStack witness unlocking locking

namespace Spend

variable {s : Spend} {witness : Witness} {unlocking locking : List Token} {initial : List Bytes}
  {segwit : Bool}

/-! ## Payments to a script -/

/-- A payment to a script is run as it is. -/
theorem runResolved_scriptHash (witness : Witness) {l : Literal}
    (h : scriptHash? locking = some l) :
    s.runResolved witness unlocking locking = s.runPair false [] unlocking locking := by
  obtain ⟨hkey, hscript⟩ := not_program_of_scriptHash h
  simp [runResolved, hkey, hscript]

/-- A run with a result comes from a pair of scripts with that result. -/
theorem exists_validatePair {b : Bool} {journal journal' : Journal}
    (h : s.runPair segwit initial unlocking locking journal = .ok b journal') :
    ∃ n, Machine.validatePair (s.environment segwit initial) unlocking locking {} = .ok b n := by
  cases hresult : Machine.validatePair (s.environment segwit initial) unlocking locking {} with
  | ok result n =>
      rw [runPair_ok journal hresult] at h
      cases h
      exact ⟨n, rfl⟩
  | error e n =>
      rw [runPair_error journal hresult] at h
      cases h

/-- A single push that is valid for a payment to a script pushes a script with the right digest, and
there is room for two items. -/
theorem scriptHash_of_valid {l : Literal} (hlocking : scriptHash? locking = some l)
    {script : Bytes} (hpush : SinglePush unlocking script) {journal journal' : Journal}
    (h : s.runPair false [] unlocking locking journal = .ok true journal') :
    Hash.hash160 script = l.data ∧ 2 ≤ s.policy.maxStack := by
  obtain ⟨n, hvalid⟩ := exists_validatePair h
  obtain ⟨-, hroom, below, redeem, hlast, hdigest⟩ :=
    Machine.fits_of_validatePair_scriptHash rfl hpush.pushes hlocking hvalid
  obtain ⟨-, hsame⟩ := List.append_singleton_inj.mp (hlast.symm.trans (List.nil_append _).symm)
  exact ⟨hsame ▸ hdigest, hroom⟩

/-! ## Attempts -/

/-- The run of a script that is pushed reaches a verdict if no item of the witness is overlong, unless
it is a crowded witness program and the push is all there is. -/
theorem Regular.runRedeem_decides (h : s.Regular) (hwitness : witness.Encodable)
    {whole : Nat} (hunlocking : Executable whole unlocking) (hwhole : whole < 2 ^ 63)
    (hlength : unlocking.length < 2 ^ 63)
    (hcrowded : ∀ script : Bytes, SinglePush unlocking script →
      ¬Crowded s.policy.maxStack witness (disassemble script)) :
    Decides witness (s.runRedeem witness unlocking) := by
  unfold runRedeem
  split
  · next redeem before hsplit =>
      have hfront := length_of_splitRedeem? hsplit
      obtain ⟨hbefore, hredeem⟩ := splitRedeem?_parts hunlocking hsplit
      rcases hredeem with rfl | ⟨script, hscript, rfl, hpush⟩
      · refine h.runResolved_decides hwitness hbefore (.nil 0) (by decide)
          (by rw [List.append_nil]; omega) ?_
        rintro - (⟨_, hprogram⟩ | ⟨_, _, _, hprogram⟩) <;> cases hprogram
      · have htokens := length_disassemble_le script
        exact h.runResolved_decides hwitness hbefore (executable_disassemble script) (by omega)
          (by rw [List.length_append]; omega) fun hempty ↦ hcrowded script (hpush hempty)
  · exact fun journal ↦ .verdict false journal

/-- An attempt at a payment to a script whose first run is valid goes on with the script that is
pushed. -/
theorem attempt_scriptHash {l : Literal} (hlock : scriptHash? locking = some l)
    {journal journal' : Journal}
    (h : s.runResolved witness unlocking locking journal = .ok true journal') :
    s.attempt witness unlocking locking journal = s.runRedeem witness unlocking journal' := by
  have hsome : (scriptHash? locking).isSome = true := by
    rw [hlock]
    rfl
  rw [attempt, Machine.bind_apply, h]
  simp only [hsome, if_true]

/-- An attempt reaches a verdict if no witness program is crowded that it runs and no item of the
witness is overlong. -/
theorem Regular.attempt_decides (h : s.Regular) (hwitness : witness.Encodable)
    {whole size : Nat} (hunlocking : Executable whole unlocking) (hwhole : whole < 2 ^ 63)
    (hlength : unlocking.length < 2 ^ 63) (hlocking : Executable size locking)
    (hsize : size < 2 ^ 63) (hlockingLength : locking.length < 2 ^ 63)
    (hnative : unlocking = [] → ¬Crowded s.policy.maxStack witness locking)
    (hwrapped : ¬Wrapped s.policy.maxStack witness unlocking locking) :
    Decides witness (s.attempt witness unlocking locking) := by
  intro journal
  have hboth : (unlocking ++ locking).length < 2 ^ 64 := by
    rw [List.length_append]
    omega
  refine .bind (h.runResolved_decides hwitness hunlocking hlocking hsize hboth hnative journal) ?_
  rintro (_ | _) journal' hbase
  · exact .verdict false journal'
  · cases hlock : scriptHash? locking with
    | none => exact .verdict true journal'
    | some l =>
        -- The first run was valid, so a crowded script that was pushed makes the spend wrapped.
        refine h.runRedeem_decides hwitness hunlocking hwhole hlength
          (fun script hpush hcrowded ↦ ?_) journal'
        rw [runResolved_scriptHash witness hlock] at hbase
        obtain ⟨hdigest, hroom⟩ := scriptHash_of_valid hlock hpush hbase
        exact hwrapped ⟨l, script, hlock, hpush, hdigest, hroom, hcrowded⟩

/-- An attempt at a crowded witness program without an unlocking script overflows. -/
theorem attempt_overflows_of_crowded (h : Crowded s.policy.maxStack witness locking) :
    Overflows (s.attempt witness [] locking) := by
  intro journal
  obtain ⟨journal', hrun⟩ := runResolved_overflows h journal
  rw [attempt, Machine.bind_apply, hrun]
  exact ⟨journal', rfl⟩

/-- An attempt at a crowded witness program with an unlocking script is refused. -/
theorem attempt_refused (h : Crowded s.policy.maxStack witness locking)
    (hunlocking : unlocking ≠ []) : s.attempt witness unlocking locking = pure false := by
  rw [attempt, runResolved_refused h.isProgram hunlocking]
  rfl

/-- An attempt at a payment to a script that wraps a crowded witness program overflows. -/
theorem attempt_overflows_of_wrapped (h : Wrapped s.policy.maxStack witness unlocking locking) :
    Overflows (s.attempt witness unlocking locking) := by
  obtain ⟨l, script, hlock, hpush, hdigest, hroom, hcrowded⟩ := h
  intro journal
  have hinitial : (s.environment false []).initial = [] := rfl
  have htwo : (([] : List Bytes).length : Int) + 2 ≤ s.policy.maxStack := by
    rwa [List.length_nil, Int.natCast_zero, Int.zero_add]
  have hsize : ∀ item ∈ [] ++ [script], item.length ≤ maxItemSize :=
    List.forall_mem_singleton.mpr hcrowded.length_le
  obtain ⟨n, hresult⟩ :=
    Machine.validatePair_scriptHash hinitial htwo hpush.pushes hsize hlock {}
  rw [decide_eq_true hdigest] at hresult
  have hbase := runPair_ok journal hresult
  rw [← runResolved_scriptHash witness hlock] at hbase
  have hsplit : splitRedeem? unlocking = some (disassemble script, []) :=
    splitRedeem?_of_pushes .nil hpush
  rw [attempt_scriptHash hlock hbase, runRedeem, hsplit]
  exact runResolved_overflows hcrowded _

end Spend

/-- A coinbase runs nothing. Its position is entered into the log, if it has a text. -/
theorem verifyInput_coinbase {tx : Transaction} (h : tx.isCoinbase = true) (policy : Policy)
    (index : Int) (previous : TxOutput) (journal : Journal) :
    verifyInput policy tx index previous journal =
      if Text.Writable index then .ok true journal else .error .unwritable journal := by
  rw [verifyInput, h, if_pos rfl, logCoinbase]
  split <;> rfl

end BitcoinSpend.Verification
